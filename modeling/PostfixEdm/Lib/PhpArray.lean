import Mathlib.Data.List.Nodup

/-!
# Arrays of PHP

An array is a map that keeps the order in which its keys came; the keys are integers and strings.

* `PhpArray.set`, `PhpArray.push` : `$a[k] = v` and `$a[] = v`; `PhpArray.literal` : `array(k => v, w, ...)`;
* `PhpArray.merge`, `PhpArray.unshift`, `PhpArray.pop` : `array_merge`, `array_unshift` and what `array_pop` returns;
* `PhpArray.values_set`, `PhpArray.values_unshift`, `PhpArray.values_merge_literal` : the values that come of them;
  `PhpArray.keys_foldl_add` : keys stay where they are.
-/

namespace Php

inductive Key
  | int (n : Int)
  | str (name : List UInt8)
  deriving DecidableEq

/-- No key is there twice. -/
structure PhpArray (α : Type) where
  entries : List (Key × α)
  nodup : (entries.map Prod.fst).Nodup

namespace PhpArray

variable {α : Type}

def keys (a : PhpArray α) : List Key := a.entries.map Prod.fst

def values (a : PhpArray α) : List α := a.entries.map Prod.snd

def empty : PhpArray α := ⟨[], List.nodup_nil⟩

/-- The index behind the largest one. -/
def nextIndex : List Key → Int
  | [] => 0
  | .int n :: rest => max (n + 1) (nextIndex rest)
  | .str _ :: rest => nextIndex rest

theorem lt_nextIndex {n : Int} {keys : List Key} (h : .int n ∈ keys) : n < nextIndex keys := by
  induction keys with
  | nil => exact absurd h List.not_mem_nil
  | cons key rest ih =>
    rcases List.mem_cons.mp h with heq | hrest
    · rw [← heq, nextIndex]
      omega
    · have := ih hrest
      cases key with
      | int m =>
        rw [nextIndex]
        omega
      | str name => exact this

theorem nodup_concat {a : PhpArray α} {k : Key} (h : k ∉ a.keys) (v : α) :
    ((a.entries ++ [(k, v)]).map Prod.fst).Nodup := by
  rw [List.map_append, List.nodup_append']
  exact ⟨a.nodup, List.nodup_singleton k, List.disjoint_singleton.mpr h⟩

/-- `$a[] = v` -/
def push (a : PhpArray α) (v : α) : PhpArray α :=
  ⟨a.entries ++ [(.int (nextIndex a.keys), v)], nodup_concat (fun h => Int.lt_irrefl _ (lt_nextIndex h)) v⟩

theorem keys_replace (a : PhpArray α) (k : Key) (v : α) :
    (a.entries.map fun e => if e.1 = k then (k, v) else e).map Prod.fst = a.keys := by
  rw [List.map_map]
  apply List.map_congr_left
  intro e _
  rw [Function.comp_apply]
  split
  · next h => exact h.symm
  · rfl

/-- `$a[k] = v`: a key that is there stays in its place. -/
def set (a : PhpArray α) (k : Key) (v : α) : PhpArray α :=
  if h : k ∈ a.keys then
    ⟨a.entries.map fun e => if e.1 = k then (k, v) else e, (keys_replace a k v).symm ▸ a.nodup⟩
  else ⟨a.entries ++ [(k, v)], nodup_concat h v⟩

/-- A member of `array(...)`, with or without a key. -/
def member (a : PhpArray α) (m : Option (List UInt8) × α) : PhpArray α :=
  match m.1 with
  | some name => a.set (.str name) m.2
  | none => a.push m.2

/-- `array(...)` -/
def literal (members : List (Option (List UInt8) × α)) : PhpArray α := members.foldl member empty

/-- An entry of another array: a string key is set, an integer key is not kept. -/
def add (a : PhpArray α) (e : Key × α) : PhpArray α :=
  match e.1 with
  | .str name => a.set (.str name) e.2
  | .int _ => a.push e.2

/-- `array_merge` -/
def merge (a b : PhpArray α) : PhpArray α := (a.entries ++ b.entries).foldl add empty

/-- `array_unshift` -/
def unshift (a : PhpArray α) (v : α) : PhpArray α := (literal [(none, v)]).merge a

/-- `$a[k] = v`, for one entry after the other. -/
def ofEntries (entries : List (Key × α)) : PhpArray α := entries.foldl (fun a e => a.set e.1 e.2) empty

/-- `$a[k]` -/
def get (a : PhpArray α) (k : Key) : Option α := a.entries.lookup k

/-- What `array_pop` returns. -/
def pop (a : PhpArray α) : Option α := a.values.getLast?

theorem keys_push (a : PhpArray α) (v : α) : (a.push v).keys = a.keys ++ [.int (nextIndex a.keys)] :=
  List.map_append

theorem values_push (a : PhpArray α) (v : α) : (a.push v).values = a.values ++ [v] := List.map_append

theorem set_of_notMem {a : PhpArray α} {k : Key} (h : k ∉ a.keys) (v : α) :
    (a.set k v).keys = a.keys ++ [k] ∧ (a.set k v).values = a.values ++ [v] := by
  rw [set, dif_neg h]
  exact ⟨List.map_append, List.map_append⟩

theorem entries_ofEntries {entries : List (Key × α)} (h : (entries.map Prod.fst).Nodup) :
    (ofEntries entries).entries = entries := by
  have hfold : ∀ (entries : List (Key × α)) (a : PhpArray α), (a.keys ++ entries.map Prod.fst).Nodup →
      (entries.foldl (fun a e => a.set e.1 e.2) a).entries = a.entries ++ entries := by
    intro entries
    induction entries with
    | nil => exact fun a _ => (List.append_nil a.entries).symm
    | cons e entries ih =>
      intro a hnodup
      have hnew : e.1 ∉ a.keys := fun hmem =>
        List.disjoint_of_nodup_append hnodup hmem List.mem_cons_self
      have hset : (a.set e.1 e.2).entries = a.entries ++ [e] := by rw [set, dif_neg hnew]
      rw [List.foldl_cons, ih, hset, List.append_assoc]
      · rfl
      · rw [(set_of_notMem hnew e.2).1, List.append_assoc]
        exact hnodup
  exact hfold entries empty h

/-- The string keys. -/
def names (keys : List Key) : List (List UInt8) :=
  keys.filterMap fun k => match k with
    | .str name => some name
    | .int _ => none

theorem nodup_names (a : PhpArray α) : (names a.keys).Nodup := by
  refine List.Nodup.filterMap ?_ a.nodup
  intro k l name hk hl
  cases k with
  | int n => cases hk
  | str _ =>
    cases l with
    | int n => cases hl
    | str _ =>
      cases hk
      cases hl
      rfl

/-- Entries whose string keys are new come behind what is there. -/
theorem values_foldl_add {entries : List (Key × α)} {a : PhpArray α} (hnodup : (names (entries.map Prod.fst)).Nodup)
    (hnew : ∀ name ∈ names (entries.map Prod.fst), .str name ∉ a.keys) :
    (entries.foldl add a).values = a.values ++ entries.map Prod.snd := by
  induction entries generalizing a with
  | nil => exact (List.append_nil _).symm
  | cons e entries ih =>
    obtain ⟨k, v⟩ := e
    rw [List.foldl_cons]
    cases k with
    | int n =>
      have hkeys : ∀ name ∈ names (entries.map Prod.fst), .str name ∉ (a.push v).keys := by
        intro name hname
        rw [keys_push, List.mem_append, List.mem_singleton, not_or]
        exact ⟨hnew name hname, Key.noConfusion⟩
      rw [show add a (.int n, v) = a.push v from rfl, ih hnodup hkeys, values_push, List.append_assoc]
      rfl
    | str name =>
      change (name :: names (entries.map Prod.fst)).Nodup at hnodup
      rw [List.nodup_cons] at hnodup
      obtain ⟨hkeys, hvalues⟩ := set_of_notMem (hnew name List.mem_cons_self) v
      have hkeys' : ∀ other ∈ names (entries.map Prod.fst), .str other ∉ (a.set (.str name) v).keys := by
        intro other hother
        rw [hkeys, List.mem_append, List.mem_singleton, not_or]
        refine ⟨hnew other (List.mem_cons_of_mem name hother), fun heq => hnodup.1 ?_⟩
        rw [← Key.str.inj heq]
        exact hother
      rw [show add a (.str name, v) = a.set (.str name) v from rfl, ih hnodup.2 hkeys', hvalues, List.append_assoc]
      rfl

theorem values_unshift (a : PhpArray α) (v : α) : (a.unshift v).values = v :: a.values := by
  have hnew : ∀ name ∈ names (((Key.int 0, v) :: a.entries).map Prod.fst), .str name ∉ (empty : PhpArray α).keys :=
    fun _ _ => List.not_mem_nil
  exact values_foldl_add (nodup_names a) hnew

/-- The members without a key. -/
theorem entries_literal (named : List (Option (List UInt8) × α)) (vs : List α) :
    ∃ entries, (literal (named ++ vs.map fun v => (none, v))).entries = (literal named).entries ++ entries ∧
      names (entries.map Prod.fst) = [] ∧ entries.map Prod.snd = vs := by
  have hpush : ∀ (vs : List α) (b : PhpArray α), ∃ entries,
      ((vs.map fun v => ((none : Option (List UInt8)), v)).foldl member b).entries = b.entries ++ entries ∧
        names (entries.map Prod.fst) = [] ∧ entries.map Prod.snd = vs := by
    intro vs
    induction vs with
    | nil => exact fun b => ⟨[], (List.append_nil _).symm, rfl, rfl⟩
    | cons v vs ih =>
      intro b
      obtain ⟨entries, hentries, hnames, hvalues⟩ := ih (b.push v)
      refine ⟨(.int (nextIndex b.keys), v) :: entries, ?_, hnames, congrArg (v :: ·) hvalues⟩
      rw [List.map_cons, List.foldl_cons, show member b (none, v) = b.push v from rfl, hentries, push,
        List.append_assoc]
      rfl
  rw [literal, List.foldl_append]
  exact hpush vs (literal named)

/-- They come last in a merge, too. -/
theorem values_merge_literal (a : PhpArray α) (named : List (Option (List UInt8) × α)) (vs : List α) :
    (a.merge (literal (named ++ vs.map fun v => (none, v)))).values = (a.merge (literal named)).values ++ vs := by
  obtain ⟨entries, hentries, hnames, hvalues⟩ := entries_literal named vs
  rw [merge, hentries, ← List.append_assoc, List.foldl_append, values_foldl_add, hvalues]
  · rfl
  · rw [hnames]
    exact List.nodup_nil
  · rw [hnames]
    exact fun _ h => absurd h List.not_mem_nil

theorem keys_add (a : PhpArray α) (e : Key × α) : a.keys <+: (add a e).keys := by
  obtain ⟨k, v⟩ := e
  cases k with
  | int n =>
    rw [show add a (.int n, v) = a.push v from rfl, keys_push]
    exact List.prefix_append _ _
  | str name =>
    rw [show add a (.str name, v) = a.set (.str name) v from rfl]
    by_cases h : .str name ∈ a.keys
    · rw [set, dif_pos h]
      exact (keys_replace a (.str name) v).symm ▸ List.prefix_refl _
    · rw [(set_of_notMem h v).1]
      exact List.prefix_append _ _

/-- Keys stay where they are. -/
theorem keys_foldl_add (entries : List (Key × α)) (a : PhpArray α) : a.keys <+: (entries.foldl add a).keys := by
  induction entries generalizing a with
  | nil => exact List.prefix_refl _
  | cons e entries ih => exact (keys_add a e).trans (ih (add a e))

/-- The first string key of an array is behind what is put in front. -/
theorem keys_unshift {a : PhpArray α} {name : List UInt8} {keys : List Key} (h : a.keys = .str name :: keys) (v : α) :
    [.int 0, .str name] <+: (a.unshift v).keys := by
  obtain ⟨entries, hnodup⟩ := a
  cases entries with
  | nil => cases h
  | cons e entries =>
    obtain ⟨k, x⟩ := e
    obtain rfl : k = .str name := (List.cons.inj h).1
    exact keys_foldl_add entries (add (literal [(none, v)]) (.str name, x))

theorem values_set {a : PhpArray α} {k : Key} (h : k ∈ a.keys) (v : α) :
    (a.set k v).values = a.values.set (a.keys.idxOf k) v := by
  have hentries : ∀ entries : List (Key × α), (entries.map Prod.fst).Nodup → k ∈ entries.map Prod.fst →
      (entries.map fun e => if e.1 = k then (k, v) else e).map Prod.snd =
        (entries.map Prod.snd).set ((entries.map Prod.fst).idxOf k) v := by
    intro entries hnodup hmem
    induction entries with
    | nil => exact absurd hmem List.not_mem_nil
    | cons e entries ih =>
      obtain ⟨j, x⟩ := e
      rw [List.map_cons, List.nodup_cons] at hnodup
      by_cases hj : j = k
      · have hrest : (entries.map fun e => if e.1 = k then (k, v) else e) = entries := by
          refine (List.map_congr_left fun e he => if_neg ?_).trans (List.map_id entries)
          intro heq
          rw [hj, ← heq] at hnodup
          exact hnodup.1 (List.mem_map.mpr ⟨e, he, rfl⟩)
        simp only [List.map_cons, hrest, hj, if_true, List.idxOf_cons_self, List.set_cons_zero]
      · have hmem' : k ∈ entries.map Prod.fst := (List.mem_cons.mp hmem).resolve_left (Ne.symm hj)
        simp only [List.map_cons, hj, if_false, List.idxOf_cons_ne _ hj, List.set_cons_succ, ih hnodup.2 hmem']
  rw [set, dif_pos h]
  exact hentries a.entries a.nodup h

end PhpArray

end Php
