import PostfixEdm.Base.CJsonForest
import PostfixEdm.Lib.Fuel

/-!
# Lists of children

* `JsonView.Tidy.newString` and the others : the constructors make items that nothing owns;
* `addItemToArray_tidy`, `addItemToObject_tidy` : an item that nothing owns gets to the end of a list;
* `detachItemFromArray_tidy` : an item leaves its list.
-/

namespace PostfixEdm

open Linked Ownership Fuel

variable {δ : Type}

/-! ## Constructors -/

namespace JsonView.Tidy

variable {h h' : JsonHeap δ} {kids : Addr → List Addr} {malloc : Malloc δ} {c : JsonCell δ}

theorem newCell (ht : h.view.Tidy kids) (hc : c.texts = []) (hview : h'.view =
      { h.view with contents := Function.update h.view.contents (malloc.addr h) (some (.cell c)) }) :
    h'.view.Tidy kids := by
  have hfirst : h.view.first (malloc.addr h) = none := by simp [JsonHeap.view, JsonHeap.cell, malloc.fresh h]
  exact ht.create (JsonHeap.contents_fresh malloc h) hc (by rw [hview]) (fun b _ => by rw [hview])
    (fun _ => by rw [hview]; exact hfirst) (by rw [hview])

theorem newReference (ht : h.view.Tidy kids) {p : Option Addr} (hview : h'.view =
      { h.view with
        first := Function.update h.view.first (malloc.addr h) p
        contents := Function.update h.view.contents (malloc.addr h)
          (some (.cell { c with string := none, isReference := true })) }) :
    h'.view.Tidy kids := by
  refine ht.create (JsonHeap.contents_fresh malloc h) (c := { c with string := none, isReference := true }) rfl
    (by rw [hview]) (fun b hb => ?_) (fun href => by cases href) (by rw [hview])
  rw [hview]
  exact Function.update_of_ne hb ..

/-- First the item, and then its text. -/
theorem newString (ht : h.view.Tidy kids) {zero : δ} {t : Addr} {s : CString} (hne : t ≠ malloc.addr h)
    (hnone : h.view.contents t = none) (hview : h'.view =
      { h.view with
        contents := Function.update (Function.update h.view.contents t (some (.text s))) (malloc.addr h)
          (some (.cell { zeroCell zero with type := .string, valuestring := some t })) }) :
    h'.view.Tidy kids := by
  have hmid := newCell ht (c := zeroCell zero) rfl (JsonHeap.newItem_view malloc zero h)
  have hswap : TextSwap (newItem malloc zero h).2.view h'.view (malloc.addr h) (zeroCell zero)
      { zeroCell zero with type := .string, valuestring := some t } none t s [] := by
    rw [JsonHeap.newItem_view, hview]
    refine ⟨Function.update_self .., rfl, rfl, rfl, ?_, rfl, rfl, ?_⟩
    · rw [JsonHeap.without_none]
      exact (Function.update_of_ne hne ..).trans hnone
    · rw [JsonHeap.without_none]
      simp only [Function.update_comm hne, Function.update_idem]
  exact hswap.tidy hmid

end JsonView.Tidy

/-! ## Walks along a list -/

section Walks
variable {h : JsonHeap δ} {x : Addr} {xs : List Addr} {p : Option Addr}

theorem lastSibling_ends (hseg : Seg h.view.toLinks p (x :: xs) none) (hcells : ∀ b ∈ x :: xs, h.view.IsCell b)
    {last : Addr} (hlast : (x :: xs).getLast? = some last) : Ends (fun fuel => lastSibling fuel x h) last := by
  induction xs generalizing x p with
  | nil =>
    obtain ⟨-, hnext, -⟩ := hseg
    obtain ⟨c, hc⟩ := hcells x List.mem_cons_self
    obtain ⟨c', hcell, -, hnext', -⟩ := h.cell_of_contents hc
    cases hlast
    refine Ends.succ (.of_forall fun _ => rfl) fun fuel => ?_
    have hnone : c'.next = none := hnext'.trans hnext
    simp [lastSibling, hcell, hnone]
  | cons y ys ih =>
    obtain ⟨-, hnext, hrest⟩ := hseg
    obtain ⟨c, hc⟩ := hcells x List.mem_cons_self
    obtain ⟨c', hcell, -, hnext', -⟩ := h.cell_of_contents hc
    rw [List.getLast?_cons_cons] at hlast
    refine Ends.succ (ih hrest (fun b hb => hcells b (List.mem_cons_of_mem x hb)) hlast) fun fuel => ?_
    have hsome : c'.next = some y := hnext'.trans hnext
    simp [lastSibling, hcell, hsome]

theorem nthSibling_eq (hseg : Seg h.view.toLinks p xs none) (hcells : ∀ b ∈ xs, h.view.IsCell b) (which : Nat) :
    nthSibling which xs.head? h = some (xs.drop which).head? := by
  induction which generalizing xs p with
  | zero => cases xs <;> rfl
  | succ which ih =>
    cases xs with
    | nil => rfl
    | cons x xs =>
      obtain ⟨-, hnext, hrest⟩ := hseg
      obtain ⟨c, hc⟩ := hcells x List.mem_cons_self
      obtain ⟨c', hcell, -, hnext', -⟩ := h.cell_of_contents hc
      have heq : c'.next = xs.head? := by rw [hnext', hnext, Option.or_none]
      simp only [List.head?_cons, nthSibling, hcell, Option.bind_eq_bind, Option.bind_some, heq, List.drop_succ_cons]
      exact ih hrest fun b hb => hcells b (List.mem_cons_of_mem x hb)

end Walks

/-! ## `cJSON_AddItemToArray` and `cJSON_DetachItemFromArray` -/

section Lists
variable {h : JsonHeap δ} {kids : Addr → List Addr} {array item a : Addr} {xs ys : List Addr}

open JsonView

/-- An item that nothing owns, and that the array is not in. -/
structure JsonView.Addable (v : JsonView δ) (kids : Addr → List Addr) (array item : Addr) : Prop where
  owner : v.IsOwner array
  cell : v.IsCell item
  root : IsRoot kids item
  apart : ¬ Below (v.parts kids) item array

theorem addItemToArray_tidy (ht : h.view.Tidy kids) (hadd : h.view.Addable kids array item) :
    ∃ h', Ends (fun fuel => addItemToArray fuel array (some item) h) h' ∧ h'.view.contents = h.view.contents ∧
      h'.view.Tidy (Function.update kids array (kids array ++ [item])) := by
  obtain ⟨c, hc, href⟩ := hadd.owner
  obtain ⟨c', hcell, -, -, -, hchild⟩ := h.cell_of_contents hc
  have hfirst : c'.child = (kids array).head? := hchild.trans (ht.first array hadd.owner)
  have hforest := ht.forest_insert hadd.cell hadd.root hadd.apart (List.perm_append_singleton item (kids array))
  have hcells : ∀ b ∈ kids array ++ [item], h.view.IsCell b := by
    intro b hb
    rcases List.mem_append.mp hb with hb | hb
    · exact ht.cells array b hb
    · exact List.mem_singleton.mp hb ▸ hadd.cell
  have hloose := ht.loose item hadd.root
  cases hkids : kids array with
  | nil =>
    obtain ⟨h', hwrite, hview⟩ := JsonHeap.setChild_view hc (some item)
    refine ⟨h', .of_forall fun fuel => ?_, by rw [hview], ?_⟩
    · simp [addItemToArray, hcell, hfirst, hkids, hwrite]
    · rw [hkids] at hforest hcells
      refine ht.relist hadd.owner hcells hforest (by rw [hview]) (by rw [hview]; rfl) ?_ ?_ ?_
      · rw [hview]
        exact ⟨hloose.2, hloose.1, trivial⟩
      · intro a ha b hb
        rw [hview]
        exact ⟨rfl, rfl⟩
      · intro b hb hother
        rw [hview]
        refine ht.loose b fun a hmem => ?_
        by_cases ha : a = array
        · rw [ha, hkids] at hmem
          cases hmem
        · exact hother a ha hmem
  | cons x xs =>
    have hseg := hkids ▸ ht.linked array
    obtain ⟨last, hlast⟩ : ∃ last, (x :: xs).getLast? = some last := ⟨_, List.getLast?_eq_some_getLast (by simp)⟩
    have hmem : last ∈ x :: xs := List.mem_of_getLast? hlast
    have hkidCells : ∀ b ∈ x :: xs, h.view.IsCell b := hkids ▸ ht.cells array
    obtain ⟨h1, hset1, hview1⟩ :=
      JsonHeap.setNext_view (p := some last) (fun a ha => Option.some.inj ha ▸ hkidCells last hmem) (some item)
    have hcell1 : ∀ b, some item = some b → ∃ c, h1.view.contents b = some (.cell c) := by
      intro b hb
      cases hb
      rw [hview1]
      exact hadd.cell
    obtain ⟨h2, hset2, hview2⟩ := JsonHeap.setPrev_view hcell1 (some last)
    have hlinks : h2.view.toLinks = h.view.toLinks.join (x :: xs).getLast? [item].head? := by
      rw [hview2, hview1, hlast]
      rfl
    refine ⟨h2, ?_, by rw [hview2, hview1], ?_⟩
    · have hbody : ∀ fuel, addItemToArray fuel array (some item) h =
          (lastSibling fuel x h).bind fun last => suffixObject last item h := by
        intro fuel
        simp [addItemToArray, hcell, hfirst, hkids]
      have hsuffix : suffixObject last item h = some h2 := by
        simp [suffixObject, hset1, hset2]
      obtain ⟨n, hn⟩ := (lastSibling_ends hseg hkidCells hlast).bind (g := fun _ last => suffixObject last item h)
        (.of_forall fun _ => hsuffix)
      exact ⟨n, fun fuel hle => (hbody fuel).trans (hn fuel hle)⟩
    · rw [hkids] at hforest hcells
      have hnodup : ((x :: xs) ++ [item]).Nodup := by
        have hlist := (List.nodup_append.mp (hforest.nodup array)).2.1
        rwa [Function.update_self] at hlist
      refine ht.relist hadd.owner hcells hforest (by rw [hview2, hview1]) ?_ ?_ ?_ ?_
      · rw [hview2, hview1, eq_comm]
        refine Function.update_eq_self_iff.mpr ?_
        rw [ht.first array hadd.owner, hkids]
        rfl
      · rw [hlinks]
        exact hseg.join ⟨hloose.2, hloose.1, trivial⟩ hnodup
      · intro a ha b hb
        have hb_last : b ≠ last := by
          rintro rfl
          exact ha (ht.unique hb (hkids ▸ hmem))
        have hb_item : b ≠ item := by
          rintro rfl
          exact hadd.root a hb
        rw [hlinks, hlast]
        exact ⟨Links.join_next (by simpa using hb_last.symm), Links.join_prev (by simpa using hb_item.symm)⟩
      · intro b hb hother
        have hfree : IsRoot kids b := by
          intro a hmem
          by_cases ha : a = array
          · exact hb (List.mem_append_left _ (hkids ▸ ha ▸ hmem))
          · exact hother a ha hmem
        have hb_last : b ≠ last := by
          rintro rfl
          exact hb (List.mem_append_left _ hmem)
        have hb_item : b ≠ item := by
          rintro rfl
          exact hb (List.mem_append_right _ (List.mem_singleton_self b))
        rw [hlinks, hlast, Links.join_next (by simpa using hb_last.symm), Links.join_prev (by simpa using hb_item.symm)]
        exact ht.loose b hfree

/-- The item gets a name. -/
theorem setString_tidy (malloc : Malloc δ) (ht : h.view.Tidy kids) (hadd : h.view.Addable kids array item)
    {string : CharPtr} {name : CString} (hnames : h.Names string item name) :
    ∃ h' c t, setString malloc item string h = some h' ∧ h.view.contents item = some (.cell c) ∧ h'.view.Tidy kids ∧
      h'.view.Addable kids array item ∧
      TextSwap h.view h'.view item c { c with string := some t } c.string t name (c.own c.valuestring).toList := by
  obtain ⟨c, hc⟩ := hadd.cell
  have hstring : ∀ b, c.string = some b → h.view.IsText b := by
    intro b hb
    refine ht.isText item b ?_
    rw [texts_of_contents hc, JsonCell.texts, hb]
    exact List.mem_append_left _ (List.mem_singleton_self b)
  obtain ⟨h', t, hset, hfresh, hview⟩ := JsonHeap.setString_view malloc hc hstring hnames
  have hswap : TextSwap h.view h'.view item c { c with string := some t } c.string t name
      (c.own c.valuestring).toList :=
    ⟨hc, rfl, rfl, rfl, hfresh, by rw [hview], by rw [hview], by rw [hview]⟩
  have hne : array ≠ item := fun heq => hadd.apart (heq ▸ .refl array)
  refine ⟨h', c, t, hset, hc, hswap.tidy ht, ⟨?_, ⟨_, hswap.contents_self⟩, hadd.root, ?_⟩, hswap⟩
  · exact hadd.owner.imp fun ca hca => ⟨hswap.cell_of_ne ht hne hca.1, hca.2⟩
  · intro hbelow
    rcases hswap.below ht hbelow with rfl | hbelow
    · exact hswap.not_isCell_new ht hadd.owner.isCell
    · exact hadd.apart hbelow

theorem addItemToObject_tidy (malloc : Malloc δ) (ht : h.view.Tidy kids) (hadd : h.view.Addable kids array item)
    {string : CharPtr} {name : CString} (hnames : h.Names string item name) :
    ∃ h' v c t, Ends (fun fuel => addItemToObject malloc fuel array string (some item) h) h' ∧
      h.view.contents item = some (.cell c) ∧ h'.view.contents = v.contents ∧
      h'.view.Tidy (Function.update kids array (kids array ++ [item])) ∧
      TextSwap h.view v item c { c with string := some t } c.string t name (c.own c.valuestring).toList := by
  obtain ⟨h1, c, t, hset, hc, ht1, hadd1, hswap⟩ := setString_tidy malloc ht hadd hnames
  obtain ⟨h', ⟨n, hn⟩, hcontents, ht'⟩ := addItemToArray_tidy ht1 hadd1
  refine ⟨h', h1.view, c, t, ⟨n, fun fuel hle => ?_⟩, hc, hcontents, ht', hswap⟩
  have hbody := hn fuel hle
  simp only [addItemToObject, hset, Option.bind_eq_bind, Option.bind_some]
  exact hbody

/-- The item that an index leads to. -/
theorem nthSibling_child (ht : h.view.Tidy kids) (harray : h.view.IsOwner array) (which : Int) :
    ∃ c, h.cell array = some c ∧ nthSibling which.toNat c.child h = some ((kids array).drop which.toNat).head? := by
  obtain ⟨c, hc⟩ := harray.isCell
  obtain ⟨c', hcell, -, -, -, hchild⟩ := h.cell_of_contents hc
  refine ⟨c', hcell, ?_⟩
  rw [hchild, ht.first array harray]
  exact nthSibling_eq (ht.linked array) (ht.cells array) which.toNat

theorem unlinkItem_view (ht : h.view.Tidy kids) (harray : h.view.IsOwner array) (hkids : kids array = xs ++ a :: ys) :
    ∃ h', unlinkItem array a h = some h' ∧
      h'.view =
        { h.view with
          toLinks := (h.view.toLinks.join xs.getLast? ys.head?).clear a
          first := Function.update h.view.first array (xs ++ ys).head? } := by
  have hseg := ht.linked array
  have hcells := ht.cells array
  have hnodup := ht.nodup array
  rw [hkids] at hseg hcells hnodup
  obtain ⟨-, hprev, hnext, -⟩ := seg_append.mp hseg
  rw [Option.or_none] at hprev hnext
  have ha : a ∉ xs ++ ys := (List.nodup_cons.mp (List.nodup_middle.mp hnodup)).1
  have hlast : xs.getLast? ≠ some a := fun heq => ha (List.mem_append_left _ (List.mem_of_getLast? heq))
  -- its neighbours become neighbours of each other
  obtain ⟨cA, hcA⟩ := hcells a (by simp)
  obtain ⟨c0, hc0, -, hnext0, hprev0, -⟩ := h.cell_of_contents hcA
  rw [hnext] at hnext0
  rw [hprev] at hprev0
  obtain ⟨h1, hset1, hview1⟩ := JsonHeap.setNext_view (h := h) (p := c0.prev)
    (fun b hb => hcells b (List.mem_append_left _ (List.mem_of_getLast? (hprev0 ▸ hb)))) c0.next
  obtain ⟨c1, hc1, -, hnext1, hprev1, -⟩ := h1.cell_of_contents (a := a) (by rw [hview1]; exact hcA)
  rw [hview1, hprev0] at hnext1 hprev1
  replace hnext1 : c1.next = ys.head? := hnext1.trans ((Links.setNext_next hlast).trans hnext)
  replace hprev1 : c1.prev = xs.getLast? := hprev1.trans hprev
  obtain ⟨h2, hset2, hview2⟩ := JsonHeap.setPrev_view (h := h1) (q := c1.next) (by
    intro b hb
    rw [hview1]
    exact hcells b (List.mem_append_right _ (List.mem_cons_of_mem a (List.mem_of_head? (hnext1 ▸ hb))))) c1.prev
  replace hview2 : h2.view = { h.view with toLinks := h.view.toLinks.join xs.getLast? ys.head? } := by
    rw [hview2, hview1, hprev0, hnext0, hnext1, hprev1]
    rfl
  -- the array has another first child, if it was the first one
  obtain ⟨c2, hc2, -, hnext2, -⟩ := h2.cell_of_contents (a := a) (by rw [hview2]; exact hcA)
  rw [hview2] at hnext2
  replace hnext2 : c2.next = ys.head? := hnext2.trans ((Links.join_next hlast).trans hnext)
  obtain ⟨h3, hset3, hview3⟩ := JsonHeap.setFirst_view (h := h2) (b := a) (by rw [hview2]; exact harray.isCell)
    (fun _ => rfl) c2.next
  have hhead : (if h.view.first array = some a then c2.next else h.view.first array) = (xs ++ ys).head? := by
    rw [ht.first array harray, hkids, hnext2]
    cases xs with
    | nil => exact if_pos rfl
    | cons x xs => exact if_neg fun heq => ha (by simp_all)
  obtain ⟨h4, hset4, hview4⟩ := JsonHeap.clear_view (h := h3) (a := a) (by
    rw [hview3, hview2]
    exact hcA)
  refine ⟨h4, ?_, ?_⟩
  · simp only [unlinkItem, Option.bind_eq_bind, Option.bind_some, hc0, hset1, hc1, hset2, hc2, hset3, hset4]
  · rw [hview4, hview3, hview2]
    simp only [hhead]

/-- Neighbours in one list have no part in another one. -/
theorem JsonView.Tidy.unlink {v v' : JsonView δ} (ht : v.Tidy kids) (harray : v.IsOwner array)
    (hkids : kids array = xs ++ a :: ys) (hview : v' =
      { v with
        toLinks := (v.toLinks.join xs.getLast? ys.head?).clear a
        first := Function.update v.first array (xs ++ ys).head? }) :
    v'.Tidy (Function.update kids array (xs ++ ys)) := by
  have hseg := ht.linked array
  have hcells := ht.cells array
  have hnodup := ht.nodup array
  rw [hkids] at hseg hcells hnodup
  have hsub : (xs ++ ys).Sublist (xs ++ a :: ys) := (List.sublist_cons_self a ys).append_left xs
  obtain ⟨hxs, -, -, hys⟩ := seg_append.mp hseg
  have hlinks : ∀ b, b ≠ a → b ∉ xs ++ ys → v'.next b = v.next b ∧ v'.prev b = v.prev b := by
    intro b hb hapart
    rw [hview]
    constructor
    · refine (Links.clear_next hb).trans (Links.join_next fun heq => ?_)
      exact hapart (List.mem_append_left _ (List.mem_of_getLast? heq))
    · refine (Links.clear_prev hb).trans (Links.join_prev fun heq => ?_)
      exact hapart (List.mem_append_right _ (List.mem_of_head? heq))
  refine ht.relist harray (fun b hb => hcells b (hsub.subset hb)) (ht.forest_sublist (hkids ▸ hsub)) (by rw [hview])
    (by rw [hview]) ?_ ?_ ?_
  · rw [hview]
    exact (hxs.join hys (hnodup.sublist hsub)).clear (List.nodup_cons.mp (List.nodup_middle.mp hnodup)).1
  · intro a' ha' b hb
    have hapart : b ∉ xs ++ a :: ys := fun hmem => ha' (ht.unique hb (hkids ▸ hmem))
    exact hlinks b (fun heq => hapart (by simp [heq])) fun hmem => hapart (hsub.subset hmem)
  · intro b hb hother
    by_cases heq : b = a
    · rw [hview, heq]
      exact Links.clear_self
    · obtain ⟨hn, hp⟩ := hlinks b heq hb
      rw [hn, hp]
      refine ht.loose b fun a' hmem => ?_
      by_cases ha' : a' = array
      · rw [ha', hkids] at hmem
        simp_all
      · exact hother a' ha' hmem

theorem detachItemFromArray_tidy (ht : h.view.Tidy kids) (harray : h.view.IsOwner array) {which : Int}
    (hkids : kids array = xs ++ a :: ys) (hwhich : which.toNat = xs.length) :
    ∃ h', detachItemFromArray array which h = some (some a, h') ∧ h'.view.contents = h.view.contents ∧
      h'.view.Tidy (Function.update kids array (xs ++ ys)) := by
  obtain ⟨c, hc, hfind⟩ := nthSibling_child ht harray which
  obtain ⟨h', hunlink, hview⟩ := unlinkItem_view ht harray hkids
  refine ⟨h', ?_, by rw [hview], ht.unlink harray hkids hview⟩
  rw [hkids, hwhich, List.drop_left] at hfind
  simp only [detachItemFromArray, hc, Option.bind_eq_bind, Option.bind_some, hwhich, hfind, List.head?_cons, hunlink]

theorem detachItemFromArray_beyond (ht : h.view.Tidy kids) (harray : h.view.IsOwner array) {which : Int}
    (hwhich : (kids array).length ≤ which.toNat) : detachItemFromArray array which h = some (none, h) := by
  obtain ⟨c, hc, hfind⟩ := nthSibling_child ht harray which
  rw [List.drop_eq_nil_of_le hwhich] at hfind
  simp only [detachItemFromArray, hc, Option.bind_eq_bind, Option.bind_some, hfind, List.head?_nil]

end Lists

end PostfixEdm
