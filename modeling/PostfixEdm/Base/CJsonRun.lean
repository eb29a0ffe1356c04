import PostfixEdm.Base.CJsonDelete
import PostfixEdm.Lib.Transition

/-!
# Calls of `cJSON` in any order

* `JsonAct` : a call; `JsonAct.Allowed` : it adds and deletes only items that nothing owns;
* `JsonMemory` : the heap, and which list of children each cell has;
* `JsonAct.ends` : an allowed call comes to an end and keeps the heap tidy;
* `safe_of_reaches` : so does every run of them, and what is deleted is gone.
-/

namespace PostfixEdm

open Linked Ownership Fuel

variable {δ : Type}

inductive JsonAct (δ : Type)
  | create (type : JsonType)
  | createNumber (num : δ)
  | createString (string : CString)
  | createReference (item : Addr)
  | addToArray (array item : Addr)
  | addToObject (object : Addr) (string : CharPtr) (item : Addr)
  | detach (array : Addr) (which : Int)
  | delete (item : Addr)
  | deleteFromArray (array : Addr) (which : Int)
  | replace (array : Addr) (which : Int) (newitem : Addr)

/-- A heap with the lists of children, which are in the heap as links only. -/
structure JsonMemory (δ : Type) where
  heap : JsonHeap δ
  kids : Addr → List Addr

def JsonMemory.init : JsonMemory δ := ⟨⟨fun _ => none, ⟨0, fun _ _ => rfl⟩⟩, fun _ => []⟩

namespace JsonAct

variable (malloc : Malloc δ) (zero : δ)

def run (fuel : Nat) (h : JsonHeap δ) : JsonAct δ → Option (JsonHeap δ)
  | create type => (createItem malloc zero type h).map (·.2)
  | createNumber num => (PostfixEdm.createNumber malloc zero num h).map (·.2)
  | createString string => (PostfixEdm.createString malloc zero string h).map (·.2)
  | createReference item => (PostfixEdm.createReference malloc zero item h).map (·.2)
  | addToArray array item => addItemToArray fuel array (some item) h
  | addToObject object string item => addItemToObject malloc fuel object string (some item) h
  | detach array which => (detachItemFromArray array which h).map (·.2)
  | delete item => cJsonDelete fuel (some item) h
  | deleteFromArray array which => deleteItemFromArray fuel array which h
  | replace array which newitem => replaceItemInArray fuel array which newitem h

/-- An item is added or deleted by a caller who owns it, and lists are those of items that are no references. A name is
not the string of the item itself. -/
def Allowed (s : JsonMemory δ) : JsonAct δ → Prop
  | create _ | createNumber _ | createString _ => True
  | createReference item => s.heap.view.IsCell item
  | addToArray array item | replace array _ item => s.heap.view.Addable s.kids array item
  | addToObject object string item => s.heap.view.Addable s.kids object item ∧ ∃ name, s.heap.Names string item name
  | detach array _ | deleteFromArray array _ => s.heap.view.IsOwner array
  | delete item => s.heap.view.IsCell item ∧ IsRoot s.kids item

/-- The lists afterwards. -/
noncomputable def relist (s : JsonMemory δ) : JsonAct δ → Addr → List Addr
  | create _ | createNumber _ | createString _ | createReference _ => s.kids
  | addToArray array item | addToObject array _ item => Function.update s.kids array (s.kids array ++ [item])
  | detach array which => Function.update s.kids array ((s.kids array).eraseIdx which.toNat)
  | delete item => s.heap.view.pruned s.kids item
  | deleteFromArray array which =>
    match (s.kids array)[which.toNat]? with
    | none => s.kids
    | some a => s.heap.view.pruned (Function.update s.kids array ((s.kids array).eraseIdx which.toNat)) a
  | replace array which newitem =>
    match (s.kids array)[which.toNat]? with
    | none => s.kids
    | some a => s.heap.view.pruned (Function.update s.kids array ((s.kids array).set which.toNat newitem)) a

/-- A call with some fuel. -/
noncomputable def step (a : Nat × JsonAct δ) (s : JsonMemory δ) : Option (JsonMemory δ) :=
  (a.2.run malloc zero a.1 s.heap).map fun h => ⟨h, a.2.relist s⟩

end JsonAct

/-- In a run of allowed calls, from nothing. -/
def JsonMemory.Reached (malloc : Malloc δ) (zero : δ) : JsonMemory δ → Prop :=
  Transition.Reaches (JsonAct.step malloc zero) (fun s a => a.2.Allowed s) .init

/-! ## One call -/

section
variable {malloc : Malloc δ} {zero : δ} {s : JsonMemory δ} {h : JsonHeap δ}

theorem lastSibling_mono (a : Addr) (h : JsonHeap δ) : Mono fun fuel => lastSibling fuel a h := by
  intro fuel
  induction fuel generalizing a with
  | zero =>
    intro x hx
    cases hx
  | succ fuel ih =>
    intro x hx
    unfold lastSibling at hx ⊢
    cases hc : h.cell a with
    | none => simp [hc] at hx
    | some c =>
      simp only [hc, Option.bind_eq_bind, Option.bind_some] at hx ⊢
      cases hn : c.next with
      | none => simpa only [hn] using hx
      | some b =>
        simp only [hn] at hx ⊢
        exact ih b x hx

theorem cJsonDelete_mono (p : Option Addr) (h : JsonHeap δ) : Mono fun fuel => cJsonDelete fuel p h := by
  intro fuel
  induction fuel generalizing p h with
  | zero =>
    intro h' hdelete
    cases p with
    | none => exact hdelete
    | some a => cases hdelete
  | succ fuel ih =>
    intro h' hdelete
    cases p with
    | none => exact hdelete
    | some a =>
      unfold cJsonDelete at hdelete ⊢
      obtain ⟨c, hc, hdelete⟩ := Option.bind_eq_some_iff.mp hdelete
      obtain ⟨h1, hchild, hdelete⟩ := Option.bind_eq_some_iff.mp hdelete
      obtain ⟨h2, hfree, hrest⟩ := Option.bind_eq_some_iff.mp hdelete
      simp only [hc, Option.bind_eq_bind, Option.bind_some, ih _ _ _ hchild, hfree, ih _ _ _ hrest]

theorem addItemToArray_mono (array : Addr) (item : Option Addr) (h : JsonHeap δ) :
    Mono fun fuel => addItemToArray fuel array item h := by
  unfold addItemToArray
  cases h.cell array with
  | none => exact mono_const none
  | some c =>
    cases item with
    | none => exact mono_const (some h)
    | some item =>
      cases hchild : c.child with
      | none => simpa only [Option.bind_eq_bind, Option.bind_some, hchild] using mono_const _
      | some first =>
        simp only [Option.bind_eq_bind, Option.bind_some, hchild]
        exact (lastSibling_mono first h).bind (g := fun _ last => suffixObject last item h) fun _ => mono_const _

theorem JsonAct.run_mono (a : JsonAct δ) (h : JsonHeap δ) : Mono fun fuel => a.run malloc zero fuel h := by
  cases a with
  | create type => exact mono_const _
  | createNumber num => exact mono_const _
  | createString string => exact mono_const _
  | createReference item => exact mono_const _
  | addToArray array item => exact addItemToArray_mono array (some item) h
  | addToObject object string item =>
    exact (mono_const (setString malloc item string h)).bind
      (g := fun fuel h => addItemToArray fuel object (some item) h) fun h => addItemToArray_mono object (some item) h
  | detach array which => exact mono_const _
  | delete item => exact cJsonDelete_mono (some item) h
  | deleteFromArray array which =>
    exact (mono_const (detachItemFromArray array which h)).bind (g := fun fuel r => cJsonDelete fuel r.1 r.2)
      fun r => cJsonDelete_mono r.1 r.2
  | replace array which newitem =>
    refine (mono_const (h.cell array)).bind fun c => ?_
    refine (mono_const (nthSibling which.toNat c.child h)).bind fun found => ?_
    cases found with
    | none => exact mono_const (some h)
    | some a =>
      exact (mono_const (takePlace array a newitem h)).bind (g := fun fuel h => cJsonDelete fuel (some a) h)
        fun h => cJsonDelete_mono (some a) h

theorem exists_split {l : List Addr} {n : Nat} {a : Addr} (h : l[n]? = some a) :
    ∃ xs ys, l = xs ++ a :: ys ∧ n = xs.length ∧ l.eraseIdx n = xs ++ ys ∧ ∀ b, l.set n b = xs ++ b :: ys := by
  obtain ⟨hlt, rfl⟩ := List.getElem?_eq_some_iff.mp h
  refine ⟨l.take n, l.drop (n + 1), ?_, ?_, List.eraseIdx_eq_take_drop_succ l n, fun b => ?_⟩
  · rw [← List.drop_eq_getElem_cons hlt, List.take_append_drop]
  · rw [List.length_take, Nat.min_eq_left (Nat.le_of_lt hlt)]
  · exact List.set_eq_take_append_cons_drop .. ▸ if_pos hlt

/-- An allowed call comes to an end, without a bad access, and keeps the heap tidy. -/
theorem JsonAct.ends (ht : s.heap.view.Tidy s.kids) (a : JsonAct δ) (hallowed : a.Allowed s) :
    ∃ h', Ends (fun fuel => a.run malloc zero fuel s.heap) h' ∧ h'.view.Tidy (a.relist s) := by
  cases a with
  | create type =>
    obtain ⟨h', hrun, hview⟩ := JsonHeap.createItem_view malloc zero type s.heap
    exact ⟨h', .of_forall fun _ => by simp [run, hrun], ht.newCell rfl hview⟩
  | createNumber num =>
    obtain ⟨h', hrun, hview⟩ := JsonHeap.createNumber_view malloc zero num s.heap
    exact ⟨h', .of_forall fun _ => by simp [run, hrun], ht.newCell rfl hview⟩
  | createString string =>
    obtain ⟨h', t, hrun, hne, hnone, hview⟩ := JsonHeap.createString_view malloc zero string s.heap
    exact ⟨h', .of_forall fun _ => by simp [run, hrun], ht.newString hne hnone hview⟩
  | createReference item =>
    obtain ⟨c, hc⟩ := hallowed
    obtain ⟨h', hrun, hview⟩ := JsonHeap.createReference_view malloc zero hc
    exact ⟨h', .of_forall fun _ => by simp [run, hrun], ht.newReference hview⟩
  | addToArray array item =>
    obtain ⟨h', hends, -, ht'⟩ := addItemToArray_tidy ht hallowed
    exact ⟨h', hends, ht'⟩
  | addToObject object string item =>
    obtain ⟨hadd, name, hnames⟩ := hallowed
    obtain ⟨h', -, -, -, hends, -, -, ht', -⟩ := addItemToObject_tidy malloc ht hadd hnames
    exact ⟨h', hends, ht'⟩
  | detach array which =>
    cases hfound : (s.kids array)[which.toNat]? with
    | none =>
      have hbeyond := List.getElem?_eq_none_iff.mp hfound
      refine ⟨s.heap, .of_forall fun _ => by simp [run, detachItemFromArray_beyond ht hallowed hbeyond], ?_⟩
      rwa [relist, List.eraseIdx_of_length_le hbeyond, Function.update_eq_self]
    | some a =>
      obtain ⟨xs, ys, hkids, hwhich, herase, -⟩ := exists_split hfound
      obtain ⟨h', hrun, -, ht'⟩ := detachItemFromArray_tidy ht hallowed hkids hwhich
      exact ⟨h', .of_forall fun _ => by simp [run, hrun], by rwa [relist, herase]⟩
  | delete item =>
    obtain ⟨h', hends, -, ht'⟩ := cJsonDelete_tidy ht hallowed.1 hallowed.2
    exact ⟨h', hends, ht'⟩
  | deleteFromArray array which =>
    cases hfound : (s.kids array)[which.toNat]? with
    | none =>
      have hbeyond := List.getElem?_eq_none_iff.mp hfound
      refine ⟨s.heap, .of_forall fun fuel => ?_, by simpa only [relist, hfound] using ht⟩
      cases fuel <;> simp [run, deleteItemFromArray, detachItemFromArray_beyond ht hallowed hbeyond, cJsonDelete]
    | some a =>
      obtain ⟨xs, ys, hkids, hwhich, herase, -⟩ := exists_split hfound
      obtain ⟨h', hends, ht'⟩ := deleteItemFromArray_tidy ht hallowed hkids hwhich
      exact ⟨h', hends, by simpa only [relist, hfound, herase] using ht'⟩
  | replace array which newitem =>
    cases hfound : (s.kids array)[which.toNat]? with
    | none =>
      have hbeyond := List.getElem?_eq_none_iff.mp hfound
      refine ⟨s.heap, .of_forall fun fuel => ?_, by simpa only [relist, hfound] using ht⟩
      exact replaceItemInArray_beyond ht hallowed.owner hbeyond fuel
    | some a =>
      obtain ⟨xs, ys, hkids, hwhich, -, hset⟩ := exists_split hfound
      obtain ⟨h', hends, ht'⟩ := replaceItemInArray_tidy ht hallowed hkids hwhich
      exact ⟨h', hends, by simpa only [relist, hfound, hset] using ht'⟩

/-! ## Every run -/

theorem JsonView.tidy_init : (JsonMemory.init : JsonMemory δ).heap.view.Tidy fun _ => [] := by
  constructor
  case forest =>
    constructor
    · exact fun a => List.nodup_nil
    · intro a a' b hb
      cases hb
    · refine ⟨fun a => ⟨a, fun b hb => ?_⟩⟩
      cases hb
  case linked => exact fun _ => trivial
  case loose => exact fun _ _ => ⟨rfl, rfl⟩
  case first => exact fun _ _ => rfl
  case owner => exact fun _ hne => absurd rfl hne
  all_goals
    intro a b
    first
      | (intro hb; cases hb)
      | (obtain ⟨s, hs⟩ := b; cases hs)

/-- Where every item is owned by another one, there is nothing. -/
theorem JsonView.Tidy.blocks_eq_none {kids : Addr → List Addr} (ht : h.view.Tidy kids)
    (hroots : ∀ r, h.view.IsCell r → ¬ IsRoot kids r) (a : Addr) : h.blocks a = none := by
  obtain ⟨n, hn⟩ := h.finite
  have hfinite : {a | h.blocks a ≠ none}.Finite := by
    refine (Set.finite_Iio n).subset fun a ha => ?_
    exact not_le.mp fun hle => ha (hn a hle)
  have hcell : ∀ {a}, h.view.IsCell a → h.blocks a ≠ none := by
    rintro a ⟨c, hc⟩ hnone
    cases hc.symm.trans (JsonHeap.contents_eq_none.mpr hnone)
  have hempty := ht.forest.eq_empty_of_owned hfinite fun b hb => ?_
  · exact not_not.mp (Set.eq_empty_iff_forall_notMem.mp hempty a)
  · cases hblock : h.view.contents b with
    | none => exact absurd (JsonHeap.contents_eq_none.mp hblock) hb
    | some block =>
      cases block with
      | cell c =>
        obtain ⟨a, ha⟩ := not_forall_not.mp (hroots b ⟨c, hblock⟩)
        exact ⟨a, hcell (ht.owner a (List.ne_nil_of_mem ha)).isCell, JsonView.mem_parts.mpr (.inr ha)⟩
      | text s =>
        obtain ⟨a, ha⟩ := ht.held b ⟨s, hblock⟩
        have hcella : h.view.IsCell a := by
          by_contra hnot
          rw [JsonView.texts_eq_nil hnot] at ha
          cases ha
        exact ⟨a, hcell hcella, JsonView.mem_parts.mpr (.inl ha)⟩

/-- What a caller can rely on. -/
structure JsonMemory.Safe (malloc : Malloc δ) (zero : δ) (s : JsonMemory δ) : Prop where
  tidy : s.heap.view.Tidy s.kids
  ends : ∀ a : JsonAct δ, a.Allowed s → ∃ h', Ends (fun fuel => a.run malloc zero fuel s.heap) h'
  deletes : ∀ r, s.heap.view.IsCell r → IsRoot s.kids r → ∃ h',
    Ends (fun fuel => cJsonDelete fuel (some r) s.heap) h' ∧ s.heap.Drops h' (Below (s.heap.view.parts s.kids) r)
  freed : (∀ r, s.heap.view.IsCell r → ¬ IsRoot s.kids r) → ∀ a, s.heap.blocks a = none

theorem safe_of_reaches (h : s.Reached malloc zero) : s.Safe malloc zero := by
  have ht : s.heap.view.Tidy s.kids := by
    refine Transition.Reaches.invariant (motive := fun s => s.heap.view.Tidy s.kids) h JsonView.tidy_init
      fun s a s' ht hallowed hstep => ?_
    obtain ⟨h', hends, ht'⟩ := a.2.ends ht hallowed
    obtain ⟨h1, hrun, rfl⟩ := Option.map_eq_some_iff.mp hstep
    exact (a.2.run_mono s.heap).eq_of_ends hrun hends ▸ ht'
  refine ⟨ht, fun a hallowed => ?_, fun r hcell hroot => ?_, ht.blocks_eq_none⟩
  · obtain ⟨h', hends, -⟩ := a.ends ht hallowed
    exact ⟨h', hends⟩
  · obtain ⟨h', hends, hdrops, -⟩ := cJsonDelete_tidy ht hcell hroot
    exact ⟨h', hends, hdrops⟩

end

/-- `malloc` takes an address beyond all others. -/
noncomputable def Malloc.beyond : Malloc δ := ⟨fun h => h.finite.choose, fun h => h.finite.choose_spec _ le_rfl⟩

theorem safe_of_reaches_member : ∃ s : JsonMemory Nat, s.Safe .beyond 0 ∧ ∃ object item, s.kids object = [item] := by
  let malloc : Malloc Nat := .beyond
  have ht := JsonView.tidy_init (δ := Nat)
  obtain ⟨h1, hrun1, hview1⟩ := JsonHeap.createItem_view malloc 0 .object JsonMemory.init.heap
  have ht1 : h1.view.Tidy fun _ => [] := ht.newCell rfl hview1
  obtain ⟨h2, hrun2, hview2⟩ := JsonHeap.createNumber_view malloc 0 7 h1
  have ht2 : h2.view.Tidy fun _ => [] := ht1.newCell rfl hview2
  have hobject : h1.view.contents (malloc.addr JsonMemory.init.heap) =
      some (.cell { zeroCell 0 with type := .object }) := by
    rw [hview1]
    exact Function.update_self ..
  have hne : malloc.addr JsonMemory.init.heap ≠ malloc.addr h1 := by
    intro heq
    rw [heq, JsonHeap.contents_fresh] at hobject
    cases hobject
  have hitem : h2.view.contents (malloc.addr h1) =
      some (.cell { zeroCell 0 with type := .number, valuedouble := 7 }) := by
    rw [hview2]
    exact Function.update_self ..
  have hadd : h2.view.Addable (fun _ => []) (malloc.addr JsonMemory.init.heap) (malloc.addr h1) := by
    refine ⟨⟨{ zeroCell 0 with type := .object }, ?_, rfl⟩, ⟨_, hitem⟩, fun _ => List.not_mem_nil, fun hbelow => ?_⟩
    · rw [hview2]
      exact (Function.update_of_ne hne ..).trans hobject
    · refine hne (hbelow.eq_of_nil ?_).symm
      rw [JsonView.parts, JsonView.texts_of_contents hitem]
      rfl
  have hnames := h2.names_outside (malloc.addr h1) (.ofBytes (ascii "n"))
  obtain ⟨h3, -, -, -, ⟨n, hn⟩, -⟩ := addItemToObject_tidy malloc ht2 hadd hnames
  have hreach1 : JsonMemory.Reached malloc 0 ⟨h1, fun _ => []⟩ :=
    .step (0, .create .object) .start trivial
      (Option.map_eq_some_iff.mpr ⟨h1, by rw [JsonAct.run, hrun1, Option.map_some], rfl⟩)
  have hreach2 : JsonMemory.Reached malloc 0 ⟨h2, fun _ => []⟩ :=
    .step (0, .createNumber 7) hreach1 trivial
      (Option.map_eq_some_iff.mpr ⟨h2, by rw [JsonAct.run, hrun2, Option.map_some], rfl⟩)
  have hreach3 : JsonMemory.Reached malloc 0
      ⟨h3, Function.update (fun _ => []) (malloc.addr JsonMemory.init.heap) [malloc.addr h1]⟩ :=
    .step (n, .addToObject (malloc.addr JsonMemory.init.heap) (.outside (.ofBytes (ascii "n"))) (malloc.addr h1))
      hreach2 ⟨hadd, _, hnames⟩ (Option.map_eq_some_iff.mpr ⟨h3, hn n le_rfl, rfl⟩)
  refine ⟨_, safe_of_reaches hreach3, malloc.addr JsonMemory.init.heap, malloc.addr h1, ?_⟩
  exact Function.update_self (malloc.addr JsonMemory.init.heap) [malloc.addr h1] fun _ => []

end PostfixEdm
