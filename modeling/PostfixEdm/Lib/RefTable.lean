import PostfixEdm.Lib.Safe
import Mathlib.Data.Finmap

/-!
# A table of reference-counted objects

Objects count the references to them and are destroyed when the last one is released. A table finds objects by a
key and holds one reference to each of its entries; every other reference is owed by the code that has it.

* `RefTable` : the objects that exist, the ones that were destroyed, and the table's entries;
* `find`, `addRef`, `releaseRef`, `get`, `modify`, `new`, `insert`, `erase` : the operations. An object that is
  gone cannot be used;
* `Counted key owed t` : every count is the number of references to the object, and an entry is found by the key
  of its object; `lend owed id` : the code has one reference more;
* `Counted.find` and so on : what each operation does with the references; `Counted.settled` : what is
  not in the table and not owed to anyone has been destroyed once;
* `Left t t'` : the objects of `t'` are left from `t`; `All P t` : every object that exists satisfies `P`.
-/

structure Cell (α : Type*) where
  refCount : Nat
  value : α

/-- `cells` are the objects by the order of their creation; `next` have been created. -/
structure RefTable (κ : Type*) (α : Type*) where
  cells : Nat → Option (Cell α)
  next : Nat
  destroyed : List Nat
  map : Finmap fun _ : κ => Nat

namespace RefTable

variable {κ α : Type*}

def empty : RefTable κ α := ⟨fun _ => none, 0, [], ∅⟩

/-! ## The operations -/

def setCell (t : RefTable κ α) (id : Nat) (c : Option (Cell α)) : RefTable κ α :=
  { t with cells := Function.update t.cells id c }

def get (t : RefTable κ α) (id : Nat) : Except Halt α :=
  match t.cells id with
  | some c => .ok c.value
  | none => .error .destroyed

def modify (t : RefTable κ α) (id : Nat) (f : α → α) : Except Halt (RefTable κ α) :=
  match t.cells id with
  | some c => .ok (t.setCell id (some { c with value := f c.value }))
  | none => .error .destroyed

def addRef (t : RefTable κ α) (id : Nat) : Except Halt (RefTable κ α) :=
  match t.cells id with
  | some c => .ok (t.setCell id (some { c with refCount := c.refCount + 1 }))
  | none => .error .destroyed

/-- The last reference destroys the object. -/
def releaseRef (t : RefTable κ α) (id : Nat) : Except Halt (RefTable κ α) :=
  match t.cells id with
  | some c =>
    if c.refCount - 1 = 0 then .ok { t.setCell id none with destroyed := id :: t.destroyed }
    else .ok (t.setCell id (some { c with refCount := c.refCount - 1 }))
  | none => .error .destroyed

/-- A new object has the reference of its creator. -/
def new (t : RefTable κ α) (a : α) : Nat × RefTable κ α :=
  (t.next, { t.setCell t.next (some ⟨1, a⟩) with next := t.next + 1 })

section
variable [DecidableEq κ]

/-- The entry for a key, with a reference of its own. -/
def find (t : RefTable κ α) (k : κ) : Except Halt (Option Nat × RefTable κ α) :=
  match t.map.lookup k with
  | none => .ok (none, t)
  | some id => do
    let t ← t.addRef id
    .ok (some id, t)

/-- An entry that exists stays. -/
def insert (t : RefTable κ α) (k : κ) (id : Nat) : RefTable κ α :=
  if k ∈ t.map then t else { t with map := t.map.insert k id }

def erase (t : RefTable κ α) (k : κ) : RefTable κ α := { t with map := t.map.erase k }

end

/-! ## Who has references -/

/-- The value of an object that exists. -/
def value (t : RefTable κ α) (id : Nat) : Option α := (t.cells id).map Cell.value

/-- One reference more to `id`. -/
def lend (owed : Nat → Nat) (id : Nat) : Nat → Nat := Function.update owed id (owed id + 1)

theorem lend_self (owed : Nat → Nat) (id : Nat) : lend owed id id = owed id + 1 := Function.update_self ..

theorem lend_of_ne (owed : Nat → Nat) {id j : Nat} (h : j ≠ id) : lend owed id j = owed j :=
  Function.update_of_ne h ..

@[simp] theorem cells_setCell_self (t : RefTable κ α) (id : Nat) (c : Option (Cell α)) :
    (t.setCell id c).cells id = c := Function.update_self ..

theorem cells_setCell_of_ne (t : RefTable κ α) {id j : Nat} (c : Option (Cell α)) (h : j ≠ id) :
    (t.setCell id c).cells j = t.cells j := Function.update_of_ne h ..

variable [DecidableEq κ]

/-- What is registered for a key. -/
def registered (t : RefTable κ α) (k : κ) : Option α := (t.map.lookup k).bind t.value

/-- Every count is right. -/
structure Counted (key : α → κ) (owed : Nat → Nat) (t : RefTable κ α) : Prop where
  positive : ∀ id c, t.cells id = some c → 0 < c.refCount
  created : ∀ id c, t.cells id = some c → id < t.next
  gone : ∀ id, id ∈ t.destroyed ↔ id < t.next ∧ t.cells id = none
  once : t.destroyed.Nodup
  entry : ∀ k id, t.map.lookup k = some id → ∃ c, t.cells id = some c ∧ key c.value = k ∧ c.refCount = owed id + 1
  loose : ∀ id c, t.cells id = some c → (∀ k, t.map.lookup k ≠ some id) → c.refCount = owed id
  dead : ∀ id, t.cells id = none → owed id = 0

/-- The object is in the table, or someone has a reference to it. -/
def Held (owed : Nat → Nat) (t : RefTable κ α) (id : Nat) : Prop := 0 < owed id ∨ ∃ k, t.map.lookup k = some id

section
variable {key : α → κ} {owed owed' : Nat → Nat} {t : RefTable κ α} {id : Nat}

theorem held_lend (owed : Nat → Nat) (t : RefTable κ α) (id : Nat) : Held (lend owed id) t id := by
  left
  rw [lend_self]
  exact Nat.succ_pos _

theorem held_of_lookup {k : κ} (h : t.map.lookup k = some id) : Held owed t id := .inr ⟨k, h⟩

namespace Counted

theorem alive (h : Counted key owed t) (hid : Held owed t id) : ∃ c, t.cells id = some c := by
  rcases hid with howed | ⟨k, hk⟩
  · cases hc : t.cells id with
    | some c => exact ⟨c, rfl⟩
    | none =>
      rw [h.dead id hc] at howed
      exact absurd howed (Nat.lt_irrefl 0)
  · obtain ⟨c, hc, _⟩ := h.entry k id hk
    exact ⟨c, hc⟩

/-- An object's cell changes, and with its count the references that are owed. -/
theorem setCell (h : Counted key owed t) {c c' : Cell α} (hc : t.cells id = some c) (hpos : 0 < c'.refCount)
    (hcount : c'.refCount + owed id = c.refCount + owed' id) (howed : ∀ j, j ≠ id → owed' j = owed j)
    (hkey : key c'.value = key c.value ∨ ∀ k, t.map.lookup k ≠ some id) :
    Counted key owed' (t.setCell id (some c')) := by
  have hself := t.cells_setCell_self id (some c')
  have hother : ∀ j, j ≠ id → _ := fun j hj => t.cells_setCell_of_ne (some c') hj
  constructor
  case positive =>
    intro j d hd
    by_cases hj : j = id
    · subst hj
      rw [hself] at hd
      exact Option.some.inj hd ▸ hpos
    · exact h.positive j d ((hother j hj).symm.trans hd)
  case created =>
    intro j d hd
    by_cases hj : j = id
    · subst hj
      exact h.created j c hc
    · exact h.created j d ((hother j hj).symm.trans hd)
  case gone =>
    intro j
    by_cases hj : j = id
    · subst hj
      rw [hself]
      refine iff_of_false (fun hmem => ?_) (fun hnone => Option.some_ne_none _ hnone.2)
      exact Option.some_ne_none c (hc.symm.trans ((h.gone j).mp hmem).2)
    · rw [hother j hj]
      exact h.gone j
  case once => exact h.once
  case entry =>
    intro k j hk
    obtain ⟨d, hd, hdk, hdc⟩ := h.entry k j hk
    by_cases hj : j = id
    · subst hj
      obtain rfl := Option.some.inj (hc.symm.trans hd)
      refine ⟨c', hself, ?_, by omega⟩
      rcases hkey with hkey | hloose
      · exact hkey.trans hdk
      · exact absurd hk (hloose k)
    · exact ⟨d, (hother j hj).trans hd, hdk, by rw [hdc, howed j hj]⟩
  case loose =>
    intro j d hd hloose
    by_cases hj : j = id
    · subst hj
      rw [hself] at hd
      obtain rfl := Option.some.inj hd
      have hcj := h.loose j c hc hloose
      omega
    · rw [howed j hj]
      exact h.loose j d ((hother j hj).symm.trans hd) hloose
  case dead =>
    intro j hnone
    by_cases hj : j = id
    · subst hj
      exact absurd (hself.symm.trans hnone) (Option.some_ne_none _)
    · rw [howed j hj]
      exact h.dead j ((hother j hj).symm.trans hnone)

end Counted

theorem registered_of_lookup {k : κ} {a : α} (hk : t.map.lookup k = some id) (ha : t.value id = some a) :
    t.registered k = some a :=
  Option.bind_eq_some_iff.mpr ⟨id, hk, ha⟩

omit [DecidableEq κ] in
theorem value_setCell {c c' : Cell α} (hc : t.cells id = some c) (hvalue : c'.value = c.value) :
    (t.setCell id (some c')).value = t.value := by
  funext j
  unfold value
  by_cases hj : j = id
  · subst hj
    rw [cells_setCell_self, hc]
    exact congrArg some hvalue
  · rw [cells_setCell_of_ne t _ hj]

/-- What happened to the references left the entries and their objects alone. -/
structure Same (t t' : RefTable κ α) : Prop where
  map : t'.map = t.map
  registered : ∀ k, t'.registered k = t.registered k

theorem Same.refl (t : RefTable κ α) : Same t t := ⟨rfl, fun _ => rfl⟩

theorem Same.trans {t₁ t₂ t₃ : RefTable κ α} (h : Same t₁ t₂) (h' : Same t₂ t₃) : Same t₁ t₃ :=
  ⟨h'.map.trans h.map, fun k => (h'.registered k).trans (h.registered k)⟩

theorem same_of_value {t' : RefTable κ α} (hmap : t'.map = t.map) (hvalue : t'.value = t.value) : Same t t' := by
  refine ⟨hmap, fun k => ?_⟩
  unfold RefTable.registered
  rw [hmap, hvalue]

namespace Counted

theorem get (h : Counted key owed t) (hid : Held owed t id) : Safe (t.get id) fun a => t.value id = some a := by
  obtain ⟨c, hc⟩ := h.alive hid
  unfold RefTable.get
  rw [hc]
  exact Safe.ok (congrArg (Option.map Cell.value) hc)

theorem addRef (h : Counted key owed t) (hid : Held owed t id) :
    Safe (t.addRef id) fun t' => Counted key (lend owed id) t' ∧ Same t t' := by
  obtain ⟨c, hc⟩ := h.alive hid
  unfold RefTable.addRef
  rw [hc]
  refine Safe.ok ⟨h.setCell hc (Nat.succ_pos _) ?_ (fun j hj => lend_of_ne owed hj) (.inl rfl), ?_⟩
  · rw [lend_self]
    dsimp only
    omega
  · exact same_of_value rfl (value_setCell hc rfl)

theorem find (h : Counted key owed t) (k : κ) :
    Safe (t.find k) fun r =>
      (t.map.lookup k = none ∧ r = (none, t)) ∨
      ∃ id t', t.map.lookup k = some id ∧ r = (some id, t') ∧ Counted key (lend owed id) t' ∧ Same t t' := by
  unfold RefTable.find
  cases hk : t.map.lookup k with
  | none => exact Safe.ok (.inl ⟨rfl, rfl⟩)
  | some id =>
    refine (h.addRef (held_of_lookup hk)).bind fun t' ht' => Safe.ok (.inr ⟨id, t', rfl, rfl, ht'⟩)

/-- The last reference was owed, so the object was not in the table. -/
theorem destroy (h : Counted key (lend owed id) t) {c : Cell α} (hc : t.cells id = some c) (hlast : c.refCount = 1) :
    Counted key owed { t.setCell id none with destroyed := id :: t.destroyed } ∧
      Same t { t.setCell id none with destroyed := id :: t.destroyed } := by
  have hself := t.cells_setCell_self id none
  have hother : ∀ j, j ≠ id → _ := fun j hj => t.cells_setCell_of_ne none hj
  have hloose : ∀ k, t.map.lookup k ≠ some id := by
    intro k hk
    obtain ⟨d, hd, _, hcount⟩ := h.entry k id hk
    obtain rfl := Option.some.inj (hc.symm.trans hd)
    rw [lend_self] at hcount
    omega
  have howed : owed id = 0 := by
    have hcount := h.loose id c hc hloose
    rw [lend_self] at hcount
    omega
  refine ⟨?counted, rfl, fun k => ?same⟩
  case same =>
    change (t.map.lookup k).bind (t.setCell id none).value = (t.map.lookup k).bind t.value
    cases hk : t.map.lookup k with
    | none => rfl
    | some j =>
      have hj : j ≠ id := fun hj => hloose k (hj ▸ hk)
      exact congrArg (Option.map Cell.value) (hother j hj)
  constructor
  case positive =>
    intro j d hd
    by_cases hj : j = id
    · subst hj
      exact absurd (hself.symm.trans hd).symm (Option.some_ne_none d)
    · exact h.positive j d ((hother j hj).symm.trans hd)
  case created =>
    intro j d hd
    by_cases hj : j = id
    · subst hj
      exact h.created j c hc
    · exact h.created j d ((hother j hj).symm.trans hd)
  case gone =>
    intro j
    by_cases hj : j = id
    · subst hj
      exact iff_of_true List.mem_cons_self ⟨h.created j c hc, hself⟩
    · change j ∈ id :: t.destroyed ↔ j < t.next ∧ (t.setCell id none).cells j = none
      rw [hother j hj, ← h.gone j]
      exact List.mem_cons.trans (or_iff_right hj)
  case once =>
    refine List.nodup_cons.mpr ⟨fun hmem => ?_, h.once⟩
    exact Option.some_ne_none c (hc.symm.trans ((h.gone id).mp hmem).2)
  case entry =>
    intro k j hk
    have hj : j ≠ id := fun hj => hloose k (hj ▸ hk)
    obtain ⟨d, hd, hdk, hdc⟩ := h.entry k j hk
    exact ⟨d, (hother j hj).trans hd, hdk, by rw [hdc, lend_of_ne owed hj]⟩
  case loose =>
    intro j d hd hfree
    by_cases hj : j = id
    · subst hj
      exact absurd (hself.symm.trans hd).symm (Option.some_ne_none d)
    · rw [← lend_of_ne owed hj]
      exact h.loose j d ((hother j hj).symm.trans hd) hfree
  case dead =>
    intro j hnone
    by_cases hj : j = id
    · subst hj
      exact howed
    · rw [← lend_of_ne owed hj]
      exact h.dead j ((hother j hj).symm.trans hnone)

/-- A reference that was owed is given back. -/
theorem releaseRef (h : Counted key (lend owed id) t) :
    Safe (t.releaseRef id) fun t' => Counted key owed t' ∧ Same t t' := by
  obtain ⟨c, hc⟩ := h.alive (held_lend owed t id)
  have hpos := h.positive id c hc
  unfold RefTable.releaseRef
  rw [hc]
  dsimp only
  split
  · exact Safe.ok (h.destroy hc (by omega))
  · next hmore =>
    refine Safe.ok ⟨h.setCell hc (Nat.pos_of_ne_zero hmore) ?_ (fun j hj => (lend_of_ne owed hj).symm) (.inl rfl), ?_⟩
    · rw [lend_self]
      dsimp only
      omega
    · exact same_of_value rfl (value_setCell hc rfl)

/-- An object has one entry at most. -/
theorem lookup_inj (h : Counted key owed t) {k k' : κ} (hk : t.map.lookup k = some id)
    (hk' : t.map.lookup k' = some id) : k' = k := by
  obtain ⟨c, hc, hck, _⟩ := h.entry k id hk
  obtain ⟨d, hd, hdk, _⟩ := h.entry k' id hk'
  obtain rfl := Option.some.inj (hc.symm.trans hd)
  exact hdk.symm.trans hck

/-- An entry is found by the key of its object. -/
theorem key_of_lookup (h : Counted key owed t) {k : κ} {a : α} (hk : t.map.lookup k = some id)
    (ha : t.value id = some a) : key a = k := by
  obtain ⟨c, hc, hck, _⟩ := h.entry k id hk
  obtain rfl := Option.some.inj (ha.symm.trans (congrArg (Option.map Cell.value) hc))
  exact hck

theorem cells_next (h : Counted key owed t) : t.cells t.next = none :=
  Option.eq_none_iff_forall_ne_some.mpr fun c hc => Nat.lt_irrefl _ (h.created _ c hc)

/-- An entry is not the object that is created next. -/
theorem ne_next_of_lookup (h : Counted key owed t) {k : κ} (hk : t.map.lookup k = some id) : id ≠ t.next := by
  obtain ⟨c, hc, _⟩ := h.entry k id hk
  exact (h.created id c hc).ne

/-- An object changes and keeps its key, or is not in the table. -/
theorem modify (h : Counted key owed t) (hid : Held owed t id) {f : α → α}
    (hkey : (∀ a, key (f a) = key a) ∨ ∀ k, t.map.lookup k ≠ some id) :
    Safe (t.modify id f) fun t' => Counted key owed t' ∧ t'.map = t.map ∧
      (∀ j, t'.value j = if j = id then (t.value id).map f else t.value j) := by
  obtain ⟨c, hc⟩ := h.alive hid
  unfold RefTable.modify
  rw [hc]
  refine Safe.ok ⟨?_, rfl, fun j => ?_⟩
  · exact h.setCell hc (h.positive id c hc) (Nat.add_comm _ _ ▸ rfl) (fun _ _ => rfl) (hkey.imp_left fun hf => hf _)
  · unfold RefTable.value
    by_cases hj : j = id
    · subst hj
      rw [if_pos rfl, cells_setCell_self, hc]
      rfl
    · rw [if_neg hj, cells_setCell_of_ne t _ hj]

/-- The same for the object of an entry. -/
theorem modify_entry (h : Counted key owed t) {k : κ} (hk : t.map.lookup k = some id) {f : α → α}
    (hkey : ∀ a, key (f a) = key a) :
    Safe (t.modify id f) fun t' => Counted key owed t' ∧ t'.map = t.map ∧
      ∀ k', t'.registered k' = if k' = k then (t.registered k').map f else t.registered k' := by
  refine (h.modify (held_of_lookup hk) (.inl hkey)).mono fun t' ⟨ht', hmap, hvalue⟩ => ⟨ht', hmap, fun k' => ?_⟩
  unfold RefTable.registered
  rw [hmap]
  split
  · next heq =>
    rw [heq, hk]
    exact (hvalue id).trans (if_pos rfl)
  · next hne =>
    cases hk' : t.map.lookup k' with
    | none => rfl
    | some j =>
      have hj : j ≠ id := fun hj => hne (h.lookup_inj hk (hj ▸ hk'))
      exact (hvalue j).trans (if_neg hj)

theorem new (h : Counted key owed t) (a : α) :
    Counted key (lend owed t.next) (t.new a).2 ∧ Same t (t.new a).2 ∧ (t.new a).2.value t.next = some a := by
  have hself := t.cells_setCell_self t.next (some ⟨1, a⟩)
  have hother : ∀ j, j ≠ t.next → _ := fun j hj => t.cells_setCell_of_ne (some ⟨1, a⟩) hj
  have hnone := h.cells_next
  have hfree : ∀ k j, t.map.lookup k = some j → j ≠ t.next := fun _ _ => h.ne_next_of_lookup
  refine ⟨?counted, ⟨rfl, fun k => ?same⟩, congrArg (Option.map Cell.value) hself⟩
  case same =>
    change (t.map.lookup k).bind (t.setCell t.next (some ⟨1, a⟩)).value = (t.map.lookup k).bind t.value
    cases hk : t.map.lookup k with
    | none => rfl
    | some j => exact congrArg (Option.map Cell.value) (hother j (hfree k j hk))
  constructor
  case positive =>
    intro j d hd
    by_cases hj : j = t.next
    · subst hj
      obtain rfl := Option.some.inj (hself.symm.trans hd)
      exact Nat.one_pos
    · exact h.positive j d ((hother j hj).symm.trans hd)
  case created =>
    intro j d hd
    by_cases hj : j = t.next
    · exact Nat.lt_succ_of_le hj.le
    · exact Nat.lt_succ_of_lt (h.created j d ((hother j hj).symm.trans hd))
  case gone =>
    intro j
    change j ∈ t.destroyed ↔ j < t.next + 1 ∧ (t.setCell t.next (some ⟨1, a⟩)).cells j = none
    by_cases hj : j = t.next
    · subst hj
      refine iff_of_false (fun hmem => Nat.lt_irrefl _ ((h.gone _).mp hmem).1) (fun hdead => ?_)
      exact Option.some_ne_none _ (hself.symm.trans hdead.2)
    · rw [hother j hj, h.gone j]
      exact and_congr_left' (by omega)
  case once => exact h.once
  case entry =>
    intro k j hk
    have hj := hfree k j hk
    obtain ⟨d, hd, hdk, hdc⟩ := h.entry k j hk
    exact ⟨d, (hother j hj).trans hd, hdk, by rw [hdc, lend_of_ne owed hj]⟩
  case loose =>
    intro j d hd hloose
    by_cases hj : j = t.next
    · subst hj
      obtain rfl := Option.some.inj (hself.symm.trans hd)
      rw [lend_self, h.dead _ hnone]
    · rw [lend_of_ne owed hj]
      exact h.loose j d ((hother j hj).symm.trans hd) hloose
  case dead =>
    intro j hdead
    by_cases hj : j = t.next
    · subst hj
      exact absurd (hself.symm.trans hdead) (Option.some_ne_none _)
    · rw [lend_of_ne owed hj]
      exact h.dead j ((hother j hj).symm.trans hdead)

/-- The creator of an object leaves its reference to the table. -/
theorem insert (h : Counted key (lend owed id) t) {k : κ} {a : α} (hfree : k ∉ t.map) (ha : t.value id = some a)
    (hk : key a = k) :
    Counted key owed (t.insert k id) ∧ (t.insert k id).map = t.map.insert k id ∧
      ∀ k', (t.insert k id).registered k' = if k' = k then some a else t.registered k' := by
  have hmap : t.insert k id = { t with map := t.map.insert k id } := if_neg hfree
  obtain ⟨c, hc, rfl⟩ := Option.map_eq_some_iff.mp ha
  have hnew : ∀ k', t.map.lookup k' ≠ some id := by
    intro k' hk'
    obtain ⟨d, hd, hdk, _⟩ := h.entry k' id hk'
    obtain rfl := Option.some.inj (hc.symm.trans hd)
    exact hfree (Finmap.mem_of_lookup_eq_some ((hk.symm.trans hdk) ▸ hk'))
  have hold : ∀ k' j, t.map.lookup k' = some j → (t.map.insert k id).lookup k' = some j := by
    intro k' j hk'
    rw [Finmap.lookup_insert_of_ne _ (ne_of_mem_of_not_mem (Finmap.mem_of_lookup_eq_some hk') hfree)]
    exact hk'
  rw [hmap]
  refine ⟨⟨h.positive, h.created, h.gone, h.once, ?entry, ?loose, ?dead⟩, rfl, fun k' => ?registered⟩
  case entry =>
    intro k' j hk'
    by_cases heq : k' = k
    · subst heq
      obtain rfl := Option.some.inj ((Finmap.lookup_insert _).symm.trans hk')
      refine ⟨c, hc, hk, ?_⟩
      rw [h.loose _ c hc hnew, lend_self]
    · rw [Finmap.lookup_insert_of_ne _ heq] at hk'
      have hj : j ≠ id := fun hj => hnew k' (hj ▸ hk')
      obtain ⟨d, hd, hdk, hdc⟩ := h.entry k' j hk'
      exact ⟨d, hd, hdk, by rw [hdc, lend_of_ne owed hj]⟩
  case loose =>
    intro j d hd hloose
    have hj : j ≠ id := fun hj => hloose k (hj ▸ Finmap.lookup_insert _)
    rw [← lend_of_ne owed hj]
    exact h.loose j d hd fun k' hk' => hloose k' (hold k' j hk')
  case dead =>
    intro j hdead
    have hj : j ≠ id := fun hj => Option.some_ne_none c (hc.symm.trans (hj ▸ hdead))
    rw [← lend_of_ne owed hj]
    exact h.dead j hdead
  case registered =>
    change ((t.map.insert k id).lookup k').bind t.value = _
    by_cases heq : k' = k
    · subst heq
      rw [Finmap.lookup_insert, if_pos rfl]
      exact ha
    · rw [Finmap.lookup_insert_of_ne _ heq, if_neg heq]
      rfl

/-- A new object that is entered at once. -/
theorem newEntry (h : Counted key owed t) {k : κ} (hfree : k ∉ t.map) {a : α} (hk : key a = k) :
    Counted key owed ((t.new a).2.insert k t.next) ∧
      ((t.new a).2.insert k t.next).map = t.map.insert k t.next ∧
      ∀ k', ((t.new a).2.insert k t.next).registered k' = if k' = k then some a else t.registered k' := by
  obtain ⟨hnew, hsame, hvalue⟩ := h.new a
  obtain ⟨hcounted, hmap, hreg⟩ := hnew.insert (hsame.map ▸ hfree) hvalue hk
  refine ⟨hcounted, hmap.trans (congrArg (Finmap.insert k t.next) hsame.map), fun k' => ?_⟩
  rw [hreg k', hsame.registered k']

/-- The table's reference goes to the one who erases the entry. -/
theorem erase (h : Counted key owed t) {k : κ} (hk : t.map.lookup k = some id) :
    Counted key (lend owed id) (t.erase k) ∧
      ∀ k', (t.erase k).registered k' = if k' = k then none else t.registered k' := by
  obtain ⟨c, hc, hck, hcount⟩ := h.entry k id hk
  have honly : ∀ k', t.map.lookup k' = some id → k' = k := fun k' hk' => h.lookup_inj hk hk'
  refine ⟨⟨h.positive, h.created, h.gone, h.once, ?entry, ?loose, ?dead⟩, fun k' => ?registered⟩
  case entry =>
    intro k' j hk'
    have hne : k' ≠ k := by
      rintro rfl
      exact Option.some_ne_none j (hk'.symm.trans (Finmap.lookup_erase k' t.map))
    have hold : t.map.lookup k' = some j := (Finmap.lookup_erase_ne hne).symm.trans hk'
    have hj : j ≠ id := fun hj => hne (honly k' (hj ▸ hold))
    obtain ⟨d, hd, hdk, hdc⟩ := h.entry k' j hold
    exact ⟨d, hd, hdk, by rw [hdc, lend_of_ne owed hj]⟩
  case loose =>
    intro j d hd hloose
    by_cases hj : j = id
    · subst hj
      obtain rfl := Option.some.inj (hc.symm.trans hd)
      rw [lend_self, hcount]
    · rw [lend_of_ne owed hj]
      refine h.loose j d hd fun k' hk' => hloose k' ?_
      have hne : k' ≠ k := by
        rintro rfl
        exact hj (Option.some.inj (hk'.symm.trans hk))
      exact (Finmap.lookup_erase_ne hne).trans hk'
  case dead =>
    intro j hdead
    have hj : j ≠ id := fun hj => Option.some_ne_none c (hc.symm.trans (hj ▸ hdead))
    rw [lend_of_ne owed hj]
    exact h.dead j hdead
  case registered =>
    change ((t.map.erase k).lookup k').bind t.value = _
    by_cases heq : k' = k
    · subst heq
      rw [Finmap.lookup_erase, if_pos rfl]
      rfl
    · rw [Finmap.lookup_erase_ne heq, if_neg heq]
      rfl

end Counted

/-- Nobody but the table has a reference, and what is not in the table has been destroyed once. -/
structure Settled (t : RefTable κ α) : Prop where
  refCount : ∀ k id, t.map.lookup k = some id → ∃ c, t.cells id = some c ∧ c.refCount = 1
  destroyed : ∀ id < t.next, (∀ k, t.map.lookup k ≠ some id) → t.destroyed.count id = 1

/-- When nobody is owed a reference. -/
theorem Counted.settled (h : Counted key (fun _ => 0) t) : Settled t := by
  refine ⟨fun k id hk => ?_, fun id hid hloose => ?_⟩
  · obtain ⟨c, hc, _, hcount⟩ := h.entry k id hk
    exact ⟨c, hc, hcount⟩
  · refine List.count_eq_one_of_mem h.once ((h.gone id).mpr ⟨hid, ?_⟩)
    cases hc : t.cells id with
    | none => rfl
    | some c => exact absurd (h.loose id c hc hloose) (h.positive id c hc).ne'

theorem counted_empty (key : α → κ) : Counted key (fun _ => 0) (empty : RefTable κ α) := by
  refine ⟨nofun, nofun, fun id => ?_, List.nodup_nil, fun k id hk => ?_, nofun, fun _ _ => rfl⟩
  · exact iff_of_false List.not_mem_nil fun h => absurd h.1 (Nat.not_lt_zero id)
  · exact absurd ((Finmap.lookup_empty k).symm.trans hk) (Option.some_ne_none id).symm

end

/-! ## What becomes of the objects -/

section
omit [DecidableEq κ]

def Left (t t' : RefTable κ α) : Prop := ∀ id a, t'.value id = some a → t.value id = some a

def All (P : Nat → α → Prop) (t : RefTable κ α) : Prop := ∀ id a, t.value id = some a → P id a

variable {P : Nat → α → Prop} {t t₁ t₂ t₃ : RefTable κ α} {id : Nat}

theorem Left.refl (t : RefTable κ α) : Left t t := fun _ _ h => h

theorem Left.trans (h : Left t₁ t₂) (h' : Left t₂ t₃) : Left t₁ t₃ := fun id a ha => h id a (h' id a ha)

theorem left_of_value (h : t₂.value = t₁.value) : Left t₁ t₂ := by
  intro id a ha
  rw [← h]
  exact ha

theorem left_of_eq (h : t₂ = t₁) : Left t₁ t₂ := by
  rw [h]
  exact .refl t₁

theorem All.left (h : All P t₁) (hleft : Left t₁ t₂) : All P t₂ := fun id a ha => h id a (hleft id a ha)

theorem all_empty : All P (empty : RefTable κ α) := nofun

theorem value_of_get {a : α} (h : t.get id = .ok a) : t.value id = some a := by
  unfold RefTable.get at h
  unfold value
  split at h
  · next c hc =>
    cases h
    rw [hc]
    rfl
  · cases h

theorem get_of_value {a : α} (h : t.value id = some a) : t.get id = .ok a := by
  obtain ⟨c, hc, rfl⟩ := Option.map_eq_some_iff.mp h
  unfold RefTable.get
  rw [hc]

/-- An object changes, and the others stay. -/
def Turns (id : Nat) (f : α → α) (t t' : RefTable κ α) : Prop :=
  t'.map = t.map ∧ ∀ j a', t'.value j = some a' → ∃ a, t.value j = some a ∧ a' = if j = id then f a else a

theorem modify_turns (f : α → α) : Yields (t.modify id f) (Turns id f t) := by
  unfold RefTable.modify
  split
  · next c hc =>
    refine Yields.ok ⟨rfl, fun j a' ha' => ?_⟩
    unfold value at ha' ⊢
    split
    · next hj =>
      subst hj
      simp only [cells_setCell_self, Option.map_some] at ha'
      exact ⟨c.value, congrArg (Option.map Cell.value) hc, (Option.some.inj ha').symm⟩
    · next hj =>
      rw [cells_setCell_of_ne t _ hj] at ha'
      exact ⟨a', ha', rfl⟩
  · exact Yields.error

theorem Turns.left {f : α → α} (h : Turns id f t₁ t₂) (hf : ∀ a, f a = a) : Left t₁ t₂ := by
  intro j a' ha'
  obtain ⟨a, ha, rfl⟩ := h.2 j a' ha'
  simpa [hf] using ha

theorem addRef_left : Yields (t.addRef id) fun t' => t'.map = t.map ∧ Left t t' := by
  unfold RefTable.addRef
  split
  · next c hc => exact Yields.ok ⟨rfl, left_of_value (value_setCell hc rfl)⟩
  · exact Yields.error

theorem releaseRef_left : Yields (t.releaseRef id) fun t' => t'.map = t.map ∧ Left t t' := by
  unfold RefTable.releaseRef
  split
  · next c hc =>
    split
    · refine Yields.ok ⟨rfl, fun j a ha => ?_⟩
      unfold value at ha ⊢
      dsimp only at ha
      by_cases hj : j = id
      · subst hj
        rw [cells_setCell_self] at ha
        cases ha
      · rwa [cells_setCell_of_ne t _ hj] at ha
    · exact Yields.ok ⟨rfl, left_of_value (value_setCell hc rfl)⟩
  · exact Yields.error

theorem All.new (h : All P t) {a : α} (ha : P t.next a) : All P (t.new a).2 := by
  intro j b hb
  unfold RefTable.new value at hb
  dsimp only at hb
  by_cases hj : j = t.next
  · subst hj
    rw [cells_setCell_self] at hb
    exact Option.some.inj hb ▸ ha
  · rw [cells_setCell_of_ne t _ hj] at hb
    exact h j b hb

end

theorem find_left {t : RefTable κ α} (k : κ) :
    Yields (t.find k) fun r => r.2.map = t.map ∧ Left t r.2 ∧ r.1 = t.map.lookup k := by
  unfold RefTable.find
  split
  · next hk => exact Yields.ok ⟨rfl, .refl t, hk.symm⟩
  · next id hk => exact addRef_left.bind fun t' _ ⟨hmap, hleft⟩ => Yields.ok ⟨hmap, hleft, hk.symm⟩

theorem value_insert (t : RefTable κ α) (k : κ) (id : Nat) : (t.insert k id).value = t.value := by
  unfold RefTable.insert
  split <;> rfl

end RefTable
