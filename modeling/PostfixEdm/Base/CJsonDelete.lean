import PostfixEdm.Base.CJsonLists

/-!
# `cJSON_Delete`

* `JsonHeap.Drops` : some blocks are gone, the others are as they were;
* `cJsonDelete_tidy` : an item that nothing owns goes, with all that is below it and nothing else.
-/

namespace PostfixEdm

open Linked Ownership Fuel

variable {δ : Type}

namespace JsonHeap

variable {h h' h'' : JsonHeap δ} {gone gone' : Addr → Prop} {a : Addr} {p : Option Addr}

def Drops (h h' : JsonHeap δ) (gone : Addr → Prop) : Prop :=
  ∀ b, (gone b → h'.blocks b = none) ∧ (¬ gone b → h'.blocks b = h.blocks b)

theorem Drops.refl (h : JsonHeap δ) : h.Drops h fun _ => False := fun _ => ⟨False.elim, fun _ => rfl⟩

theorem Drops.trans (hd : h.Drops h' gone) (hd' : h'.Drops h'' gone') : h.Drops h'' fun b => gone b ∨ gone' b := by
  intro b
  constructor
  · intro hb
    by_cases hb' : gone' b
    · exact (hd' b).1 hb'
    · exact ((hd' b).2 hb').trans ((hd b).1 (hb.resolve_right hb'))
  · intro hb
    obtain ⟨hb₁, hb₂⟩ := not_or.mp hb
    exact ((hd' b).2 hb₂).trans ((hd b).2 hb₁)

theorem Drops.congr (hd : h.Drops h' gone) (hiff : ∀ b, gone' b ↔ gone b) : h.Drops h' gone' := fun b =>
  ⟨fun hb => (hd b).1 ((hiff b).mp hb), fun hb => (hd b).2 fun hb' => hb ((hiff b).mpr hb')⟩

theorem Drops.blocks (hd : h.Drops h' gone) (ha : ¬ gone a) : h'.blocks a = h.blocks a := (hd a).2 ha

theorem Drops.cell (hd : h.Drops h' gone) (ha : ¬ gone a) : h'.cell a = h.cell a := by
  simp only [JsonHeap.cell, hd.blocks ha]

theorem free_drops (ha : h.blocks a ≠ none) : ∃ h', h.free a = some h' ∧ h.Drops h' fun b => b = a := by
  refine ⟨h.set a none, by simp [free, Option.isSome_iff_ne_none, ha], fun b => ⟨?_, fun hb => ?_⟩⟩
  · rintro rfl
    exact blocks_set_self ..
  · exact blocks_set_of_ne h none hb

theorem freeOpt_drops (hp : ∀ a, p = some a → h.blocks a ≠ none) :
    ∃ h', h.freeOpt p = some h' ∧ h.Drops h' fun b => b ∈ p.toList := by
  cases p with
  | none => exact ⟨h, rfl, (Drops.refl h).congr (by simp)⟩
  | some a =>
    obtain ⟨h', hfree, hd⟩ := free_drops (hp a rfl)
    exact ⟨h', hfree, hd.congr (by simp)⟩

end JsonHeap

/-! ## What goes -/

section
variable {h₀ : JsonHeap δ} {kids : Addr → List Addr} {p : Option Addr} {xs : List Addr} {a b r x y : Addr}

open JsonView JsonHeap

/-- What is below one of the items. -/
def JsonView.BelowAny (v : JsonView δ) (kids : Addr → List Addr) (xs : List Addr) (b : Addr) : Prop :=
  ∃ x ∈ xs, Below (v.parts kids) x b

namespace JsonView.Tidy

variable {v : JsonView δ} (h : v.Tidy kids)
include h

/-- A text owns nothing. -/
theorem parts_text (ha : v.IsText a) : v.parts kids a = [] := by
  have hcell : ¬ v.IsCell a := fun hcell => hcell.not_isText ha
  rw [parts, texts_eq_nil hcell, h.kids_eq_nil hcell]
  rfl

theorem below_iff : Below (v.parts kids) x b ↔ v.BelowAny kids (kids x) b ∨ b ∈ v.texts x ∨ b = x := by
  constructor
  · intro hbelow
    rcases Relation.ReflTransGen.cases_head hbelow with rfl | ⟨y, hy, hrest⟩
    · exact .inr (.inr rfl)
    · rcases mem_parts.mp hy with htext | hkid
      · have heq : y = b := Below.eq_of_nil hrest (h.parts_text (h.isText x y htext))
        exact .inr (.inl (heq ▸ htext))
      · exact .inl ⟨y, hkid, hrest⟩
  · rintro (⟨y, hy, hrest⟩ | htext | rfl)
    · exact .head (mem_parts.mpr (.inr hy)) hrest
    · exact .head (mem_parts.mpr (.inl htext)) (.refl b)
    · exact .refl b

theorem not_belowAny_self : ¬ v.BelowAny kids (kids x) x := by
  rintro ⟨y, hy, hbelow⟩
  exact h.forest.not_below (mem_parts.mpr (.inr hy)) hbelow

/-- A text of an item is not below one of its children. -/
theorem not_belowAny_text (hb : b ∈ v.texts x) : ¬ v.BelowAny kids (kids x) b := by
  rintro ⟨y, hy, hbelow⟩
  refine h.forest.not_below_sibling (mem_parts.mpr (.inr hy)) (mem_parts.mpr (.inl hb)) ?_ hbelow
  rintro rfl
  exact (h.cells x y hy).not_isText (h.isText x y hb)

end JsonView.Tidy

/-- With enough fuel the items go, from any heap that still has them. -/
def Deletes (h₀ : JsonHeap δ) (kids : Addr → List Addr) (xs : List Addr) : Prop :=
  ∀ h : JsonHeap δ, (∀ b, h₀.view.BelowAny kids xs b → h.blocks b = h₀.blocks b) →
    ∃ h', Ends (fun fuel => cJsonDelete fuel xs.head? h) h' ∧ h.Drops h' (h₀.view.BelowAny kids xs)

/-- One item, whose children have gone. -/
theorem freeItem_drops (ht : h₀.view.Tidy kids) {c : JsonCell δ} (hc : h₀.cell x = some c) {h : JsonHeap δ}
    (hkept : ∀ b, b ∈ h₀.view.texts x ∨ b = x → h.blocks b = h₀.blocks b) :
    ∃ h', freeItem x h = some h' ∧ h.Drops h' fun b => b ∈ h₀.view.texts x ∨ b = x := by
  have htexts : h₀.view.texts x = c.string.toList ++ (c.own c.valuestring).toList :=
    (texts_of_contents (contents_of_cell hc)).trans rfl
  have hnodup := (List.nodup_append.mp (ht.forest.nodup x)).1
  have htext : ∀ b ∈ h₀.view.texts x, h.blocks b ≠ none ∧ x ≠ b := by
    intro b hb
    obtain ⟨s, hs⟩ := ht.isText x b hb
    rw [contents_text] at hs
    rw [hkept b (.inl hb), hs]
    refine ⟨Option.some_ne_none _, ?_⟩
    rintro rfl
    cases (blocks_of_cell hc).symm.trans hs
  have hcell : h.cell x = some c := cell_of_blocks ((hkept x (.inr rfl)).trans (blocks_of_cell hc))
  rw [htexts] at hnodup htext ⊢
  obtain ⟨h1, hfree1, hd1⟩ := freeOpt_drops (h := h) (p := c.own c.valuestring) fun b hb => (htext b (by simp [hb])).1
  have hx1 : x ∉ (c.own c.valuestring).toList := fun hmem => (htext x (List.mem_append_right _ hmem)).2 rfl
  have hcell1 : h1.cell x = some c := (hd1.cell hx1).trans hcell
  obtain ⟨h2, hfree2, hd2⟩ := freeOpt_drops (h := h1) (p := c.string) (by
    intro b hb
    have hmem : b ∈ c.string.toList := by simp [hb]
    rw [hd1.blocks fun hmem' => (List.nodup_append.mp hnodup).2.2 b hmem b hmem' rfl]
    exact (htext b (List.mem_append_left _ hmem)).1)
  have hx2 : x ∉ c.string.toList := fun hmem => (htext x (List.mem_append_left _ hmem)).2 rfl
  obtain ⟨h3, hfree3, hd3⟩ := free_drops (h := h2) (a := x) (by
    rw [hd2.blocks hx2, hd1.blocks hx1, blocks_of_cell hcell]
    exact Option.some_ne_none _)
  refine ⟨h3, ?_, ((hd1.trans hd2).trans hd3).congr fun b => ?_⟩
  · simp only [freeItem, hcell, Option.bind_eq_bind, Option.bind_some, hfree1, hcell1, hfree2, hfree3]
  · rw [List.mem_append, or_comm (a := b ∈ c.string.toList)]

/-- Siblings go one after the other, if their children do. -/
theorem deletes_siblings (ht : h₀.view.Tidy kids) (hseg : Seg h₀.view.toLinks p xs none)
    (hcells : ∀ x ∈ xs, h₀.view.IsCell x)
    (hapart : xs.Pairwise fun x y => ∀ b, Below (h₀.view.parts kids) x b → ¬ Below (h₀.view.parts kids) y b)
    (hkids : ∀ x ∈ xs, Deletes h₀ kids (kids x)) : Deletes h₀ kids xs := by
  induction xs generalizing p with
  | nil => exact fun h _ => ⟨h, .of_forall fun fuel => by cases fuel <;> rfl, (Drops.refl h).congr (by simp [BelowAny])⟩
  | cons x xs ih =>
    intro h hkept
    obtain ⟨-, hnext, hrest⟩ := hseg
    obtain ⟨hx, hxs⟩ := List.pairwise_cons.mp hapart
    obtain ⟨cc, hcc⟩ := hcells x List.mem_cons_self
    obtain ⟨c, hc, hcore, hnext', -, hchild⟩ := h₀.cell_of_contents hcc
    replace hnext' : c.next = xs.head? := by rw [hnext', hnext, Option.or_none]
    have hself : ∀ b, Below (h₀.view.parts kids) x b → h.blocks b = h₀.blocks b := fun b hb =>
      hkept b ⟨x, List.mem_cons_self, hb⟩
    have hcell : h.cell x = some c := cell_of_blocks ((hself x (.refl x)).trans (blocks_of_cell hc))
    -- the children, of which a reference has none
    have hown : c.own c.child = (kids x).head? := by
      have href : c.isReference = cc.isReference := (congrArg JsonCell.isReference hcore : c.core.isReference = _)
      cases hc' : c.isReference with
      | true =>
        have hnil : kids x = [] := by
          by_contra hne
          obtain ⟨c', hc'', href'⟩ := ht.owner x hne
          cases hcc.symm.trans hc''
          simp [href, href'] at hc'
        simp [JsonCell.own, hc', hnil]
      | false =>
        have howner : h₀.view.IsOwner x := ⟨cc, hcc, href ▸ hc'⟩
        simp [JsonCell.own, hc', hchild, ht.first x howner]
    obtain ⟨h1, hends1, hd1⟩ := hkids x List.mem_cons_self h fun b hb => hself b ((ht.below_iff).mpr (.inl hb))
    obtain ⟨h2, hfree, hd2⟩ := freeItem_drops ht hc (h := h1) (by
      rintro b (hb | rfl)
      · rw [hd1.blocks (ht.not_belowAny_text hb)]
        exact hself b (ht.below_iff.mpr (.inr (.inl hb)))
      · rw [hd1.blocks ht.not_belowAny_self]
        exact hself b (.refl b))
    have hd : h.Drops h2 (Below (h₀.view.parts kids) x) := (hd1.trans hd2).congr fun b => ht.below_iff
    obtain ⟨h3, hends3, hd3⟩ := ih hrest (fun y hy => hcells y (List.mem_cons_of_mem x hy)) hxs
      (fun y hy => hkids y (List.mem_cons_of_mem x hy)) h2 (by
        rintro b ⟨y, hy, hb⟩
        rw [hd.blocks fun hbx => hx y hy b hbx hb]
        exact hkept b ⟨y, List.mem_cons_of_mem x hy, hb⟩)
    refine ⟨h3, ?_, (hd.trans hd3).congr fun b => ?_⟩
    · have htail : Ends (fun fuel => (freeItem x h1).bind fun h => cJsonDelete fuel c.next h) h3 := by
        rw [hfree, hnext']
        exact hends3
      refine Ends.succ (hends1.bind (g := fun fuel h => (freeItem x h).bind fun h => cJsonDelete fuel c.next h) htail)
        fun fuel => ?_
      simp only [List.head?_cons, cJsonDelete, hcell, Option.bind_eq_bind, Option.bind_some, hown]
    · simp [BelowAny]

/-- Siblings have nothing in common. -/
theorem apart_kids (ht : h₀.view.Tidy kids) (a : Addr) :
    (kids a).Pairwise fun x y => ∀ b, Below (h₀.view.parts kids) x b → ¬ Below (h₀.view.parts kids) y b := by
  refine (ht.nodup a).imp_of_mem fun {x y} hx hy hne b => ?_
  have hx' : x ∈ h₀.view.parts kids a := mem_parts.mpr (.inr hx)
  have hy' : y ∈ h₀.view.parts kids a := mem_parts.mpr (.inr hy)
  exact ht.forest.not_below_both (ht.forest.not_below_sibling hx' hy' hne)
    (ht.forest.not_below_sibling hy' hx' hne.symm)

theorem deletes_kids (ht : h₀.view.Tidy kids) (a : Addr) : Deletes h₀ kids (kids a) := by
  induction a using ht.forest.wf.induction with
  | h a ih =>
    exact deletes_siblings ht (ht.linked a) (ht.cells a) (apart_kids ht a) fun x hx => ih x (mem_parts.mpr (.inr hx))

open Classical in
/-- The lists without those of an item and of what is below it. -/
noncomputable def JsonView.pruned (v : JsonView δ) (kids : Addr → List Addr) (r : Addr) (a : Addr) : List Addr :=
  if Below (v.parts kids) r a then [] else kids a

section
variable {h h' : JsonHeap δ}

theorem JsonHeap.Drops.view (hd : h.Drops h' (Below (h.view.parts kids) r)) :
    (Below (h.view.parts kids) r a → h'.view.contents a = none ∧ h'.view.next a = none ∧ h'.view.prev a = none) ∧
      (¬ Below (h.view.parts kids) r a → h'.view.contents a = h.view.contents a ∧ h'.view.next a = h.view.next a ∧
        h'.view.prev a = h.view.prev a ∧ h'.view.first a = h.view.first a) := by
  constructor
  · intro ha
    have hblock := (hd a).1 ha
    simp [JsonHeap.view, JsonHeap.cell, hblock]
  · intro ha
    simp [JsonHeap.view, hd.cell ha, hd.blocks ha]

open Classical in
theorem JsonView.Tidy.drop (ht : h.view.Tidy kids) (hroot : IsRoot (h.view.parts kids) r)
    (hd : h.Drops h' (Below (h.view.parts kids) r)) : h'.view.Tidy (h.view.pruned kids r) := by
  have hgone : ∀ {a}, Below (h.view.parts kids) r a → h.view.pruned kids r a = [] := fun ha => if_pos ha
  have hkept : ∀ {a}, ¬ Below (h.view.parts kids) r a → h.view.pruned kids r a = kids a := fun ha => if_neg ha
  have hmem : ∀ {a b}, b ∈ h.view.pruned kids r a → b ∈ kids a ∧ ¬ Below (h.view.parts kids) r a := by
    intro a b hb
    by_cases ha : Below (h.view.parts kids) r a
    · rw [hgone ha] at hb
      cases hb
    · exact ⟨hkept ha ▸ hb, ha⟩
  -- what is not below the item has its parts, and they are not below it either
  have hparts : ∀ {a b}, ¬ Below (h.view.parts kids) r a → b ∈ h.view.parts kids a →
      ¬ Below (h.view.parts kids) r b := by
    intro a b ha hb hbelow
    refine ha (ht.forest.below_of_mem hb hbelow ?_)
    rintro rfl
    exact hroot a hb
  have htexts : ∀ {a}, ¬ Below (h.view.parts kids) r a → h'.view.texts a = h.view.texts a := fun ha => by
    simp only [texts, (hd.view.2 ha).1]
  have hnone : ∀ {a block}, h'.view.contents a = some block →
      ¬ Below (h.view.parts kids) r a ∧ h.view.contents a = some block := by
    intro a block ha
    by_cases hbelow : Below (h.view.parts kids) r a
    · cases (hd.view.1 hbelow).1.symm.trans ha
    · exact ⟨hbelow, (hd.view.2 hbelow).1.symm.trans ha⟩
  have hnotCell : ∀ {a}, Below (h.view.parts kids) r a → ¬ h'.view.IsCell a := by
    rintro a ha ⟨c, hc⟩
    exact (hnone hc).1 ha
  refine ⟨?_, fun a => ?_, fun b hb => ?_, fun a ha => ?_, fun a ha => ?_, fun a b hb => ?_, fun a b hb => ?_,
    fun b hb => ?_⟩
  · refine ht.forest.mono fun a => ?_
    by_cases ha : Below (h.view.parts kids) r a
    · rw [parts, texts_eq_nil (hnotCell ha), hgone ha]
      exact List.nil_sublist _
    · rw [parts, htexts ha, hkept ha, parts]
  · by_cases ha : Below (h.view.parts kids) r a
    · rw [hgone ha]
      trivial
    · rw [hkept ha]
      have hfar : ∀ b ∈ kids a, ¬ Below (h.view.parts kids) r b := fun b hb => hparts ha (mem_parts.mpr (.inr hb))
      exact (ht.linked a).congr (fun b hb => (hd.view.2 (hfar b hb)).2.1) fun b hb => (hd.view.2 (hfar b hb)).2.2.1
  · by_cases hbelow : Below (h.view.parts kids) r b
    · exact (hd.view.1 hbelow).2
    · obtain ⟨-, hn, hp, -⟩ := hd.view.2 hbelow
      rw [hn, hp]
      refine ht.loose b fun a hmem' => ?_
      by_cases ha : Below (h.view.parts kids) r a
      · exact hbelow (ha.tail (mem_parts.mpr (.inr hmem')))
      · exact hb a (hkept ha ▸ hmem')
  · obtain ⟨c, hc, href⟩ := ha
    obtain ⟨hbelow, hc'⟩ := hnone hc
    rw [hkept hbelow, (hd.view.2 hbelow).2.2.2]
    exact ht.first a ⟨c, hc', href⟩
  · obtain ⟨b, hb⟩ := List.exists_mem_of_ne_nil _ ha
    obtain ⟨hb', hbelow⟩ := hmem hb
    obtain ⟨c, hc, href⟩ := ht.owner a (List.ne_nil_of_mem hb')
    exact ⟨c, (hd.view.2 hbelow).1.trans hc, href⟩
  · obtain ⟨hb', hbelow⟩ := hmem hb
    obtain ⟨c, hc⟩ := ht.cells a b hb'
    exact ⟨c, (hd.view.2 (hparts hbelow (mem_parts.mpr (.inr hb')))).1.trans hc⟩
  · by_cases ha : Below (h.view.parts kids) r a
    · rw [texts_eq_nil (hnotCell ha)] at hb
      cases hb
    · rw [htexts ha] at hb
      obtain ⟨s, hs⟩ := ht.isText a b hb
      exact ⟨s, (hd.view.2 (hparts ha (mem_parts.mpr (.inl hb)))).1.trans hs⟩
  · obtain ⟨s, hs⟩ := hb
    obtain ⟨hbelow, hs'⟩ := hnone hs
    obtain ⟨a, ha⟩ := ht.held b ⟨s, hs'⟩
    refine ⟨a, ?_⟩
    rwa [htexts fun ha' => hbelow (ha'.tail (mem_parts.mpr (.inl ha)))]

theorem cJsonDelete_tidy (ht : h.view.Tidy kids) (hcell : h.view.IsCell r) (hroot : IsRoot kids r) :
    ∃ h', Ends (fun fuel => cJsonDelete fuel (some r) h) h' ∧ h.Drops h' (Below (h.view.parts kids) r) ∧
      h'.view.Tidy (h.view.pruned kids r) := by
  obtain ⟨hnext, hprev⟩ := ht.loose r hroot
  have hone : Deletes h kids [r] := by
    refine deletes_siblings ht (p := none) ⟨hprev, hnext, trivial⟩ ?_ (List.pairwise_singleton ..) ?_
    · exact fun x hx => List.mem_singleton.mp hx ▸ hcell
    · exact fun x _ => deletes_kids ht x
  obtain ⟨h', hends, hd⟩ := hone h fun _ _ => rfl
  have hd' : h.Drops h' (Below (h.view.parts kids) r) := hd.congr fun b => by simp [BelowAny]
  exact ⟨h', hends, hd', ht.drop (ht.isRoot hcell hroot) hd'⟩

/-! ## In a list -/

variable {array item : Addr} {ys : List Addr} {which : Int}

theorem pruned_congr {v v' : JsonView δ} (h : v'.contents = v.contents) : v'.pruned = v.pruned := by
  funext kids r a
  have hparts : v'.parts kids = v.parts kids := by
    funext b
    rw [parts, texts_congr h, parts]
  rw [pruned, hparts, pruned]

theorem deleteItemFromArray_tidy (ht : h.view.Tidy kids) (harray : h.view.IsOwner array)
    (hkids : kids array = xs ++ a :: ys) (hwhich : which.toNat = xs.length) :
    ∃ h', Ends (fun fuel => deleteItemFromArray fuel array which h) h' ∧
      h'.view.Tidy (h.view.pruned (Function.update kids array (xs ++ ys)) a) := by
  obtain ⟨h1, hdetach, hcontents, ht1⟩ := detachItemFromArray_tidy ht harray hkids hwhich
  have hnodup := ht.nodup array
  have ha : a ∈ kids array := by simp [hkids]
  rw [hkids] at hnodup
  have hroot : IsRoot (Function.update kids array (xs ++ ys)) a := by
    intro b hmem
    by_cases hb : b = array
    · rw [hb, Function.update_self] at hmem
      exact (List.nodup_cons.mp (List.nodup_middle.mp hnodup)).1 hmem
    · rw [Function.update_of_ne hb] at hmem
      exact hb (ht.unique hmem ha)
  have hcell : h1.view.IsCell a := by
    rw [IsCell, hcontents]
    exact ht.cells array a ha
  obtain ⟨h2, ⟨n, hn⟩, -, ht2⟩ := cJsonDelete_tidy ht1 hcell hroot
  refine ⟨h2, ⟨n, fun fuel hle => ?_⟩, pruned_congr hcontents ▸ ht2⟩
  simp only [deleteItemFromArray, hdetach, Option.bind_eq_bind, Option.bind_some]
  exact hn fuel hle

theorem takePlace_view (ht : h.view.Tidy kids) (hadd : h.view.Addable kids array item)
    (hkids : kids array = xs ++ a :: ys) :
    ∃ h', takePlace array a item h = some h' ∧
      h'.view =
        { h.view with
          toLinks := ((h.view.toLinks.join xs.getLast? (some item)).join (some item) ys.head?).clear a
          first := Function.update h.view.first array (xs ++ item :: ys).head? } := by
  have hseg := ht.linked array
  have hcells := ht.cells array
  have hnodup := ht.nodup array
  have hitem : item ∉ xs ++ a :: ys := hkids ▸ hadd.root array
  rw [hkids] at hseg hcells hnodup
  obtain ⟨-, hprev, hnext, -⟩ := seg_append.mp hseg
  rw [Option.or_none] at hprev hnext
  have hlast : xs.getLast? ≠ some item := fun heq => hitem (List.mem_append_left _ (List.mem_of_getLast? heq))
  have hhead : ys.head? ≠ some item := fun heq =>
    hitem (List.mem_append_right _ (List.mem_cons_of_mem a (List.mem_of_head? heq)))
  obtain ⟨c, hc⟩ := hadd.owner.isCell
  obtain ⟨cA, hcA⟩ := hcells a (by simp)
  obtain ⟨cI, hcI⟩ := hadd.cell
  obtain ⟨c0, hc0, -, hnext0, -⟩ := h.cell_of_contents hcA
  replace hnext0 := hnext0.trans hnext
  -- the new item gets its links
  obtain ⟨h1, hset1, hview1⟩ := JsonHeap.setNext_view (h := h) (p := some item)
    (fun b hb => by cases hb; exact hadd.cell) c0.next
  obtain ⟨c1, hc1, -, -, hprev1, -⟩ := h1.cell_of_contents (a := a) (by rw [hview1]; exact hcA)
  rw [hview1] at hprev1
  replace hprev1 : c1.prev = xs.getLast? := hprev1.trans hprev
  obtain ⟨h2, hset2, hview2⟩ := JsonHeap.setPrev_view (h := h1) (q := some item)
    (fun b hb => by cases hb; rw [hview1]; exact hadd.cell) c1.prev
  obtain ⟨n, hn, -, hnextn, -⟩ := h2.cell_of_contents (a := item) (by rw [hview2, hview1]; exact hcI)
  replace hnextn : n.next = ys.head? := by
    rw [hnextn, hview2, hview1, hnext0]
    exact if_pos rfl
  -- and the neighbours theirs
  obtain ⟨h3, hset3, hview3⟩ := JsonHeap.setPrev_view (h := h2) (q := n.next) (by
    intro b hb
    rw [hview2, hview1]
    exact hcells b (List.mem_append_right _ (List.mem_cons_of_mem a (List.mem_of_head? (hnextn ▸ hb))))) (some item)
  replace hview3 : h3.view =
      { h.view with
        toLinks := ((h.view.toLinks.setNext (some item) ys.head?).setPrev (some item) xs.getLast?).setPrev ys.head?
          (some item) } := by
    rw [hview3, hview2, hview1, hnextn, hprev1, hnext0]
  obtain ⟨h4, hset4, hview4⟩ : ∃ h4,
      (h3.setFirst array a (some item) do
        h3.write (← (← h3.cell item).prev) fun cell => { cell with next := some item }) = some h4 ∧
      h4.view =
        { h.view with
          toLinks := (h.view.toLinks.join xs.getLast? (some item)).join (some item) ys.head?
          first := Function.update h.view.first array (xs ++ item :: ys).head? } := by
    have hfirst : h3.view.first array = (xs ++ a :: ys).head? := by rw [hview3, ← hkids, ht.first array hadd.owner]
    obtain ⟨c3, hc3, -, -, -, hchild3⟩ := h3.cell_of_contents (a := array) (by rw [hview3]; exact hc)
    cases xs with
    | nil =>
      obtain ⟨h4, hset4, hview4⟩ := JsonHeap.setChild_view (h := h3) (a := array) (by rw [hview3]; exact hc) (some item)
      refine ⟨h4, ?_, ?_⟩
      · simp [setFirst, hc3, hchild3, hfirst, hset4]
      · rw [hview4, hview3, ← Links.between_eq hlast]
        rfl
    | cons x xs =>
      obtain ⟨last, hlast'⟩ : ∃ last, (x :: xs).getLast? = some last :=
        ⟨_, List.getLast?_eq_some_getLast (List.cons_ne_nil x xs)⟩
      have hx : x ≠ a := (List.nodup_cons.mp hnodup).1 ∘ fun heq => by simp [heq]
      obtain ⟨c4, hc4, -, -, hprev4, -⟩ := h3.cell_of_contents (a := item) (by rw [hview3]; exact hcI)
      replace hprev4 : c4.prev = some last := by
        rw [hprev4, hview3, ← hlast']
        exact (if_neg hhead).trans (if_pos rfl)
      obtain ⟨h4, hset4, hview4⟩ := JsonHeap.setNext_view (h := h3) (p := some last) (by
        intro b hb
        cases hb
        rw [hview3]
        exact hcells last (List.mem_append_left _ (List.mem_of_getLast? hlast'))) (some item)
      have hset4' : (h3.write last fun cell => { cell with next := some item }) = some h4 := hset4
      refine ⟨h4, ?_, ?_⟩
      · simp [setFirst, hc3, hchild3, hfirst, hx, hc4, hprev4, hset4']
      · have heq : Function.update h.view.first array (x :: xs ++ item :: ys).head? = h.view.first := by
          refine Function.update_eq_self_iff.mpr ?_
          rw [ht.first array hadd.owner, hkids]
          rfl
        rw [hview4, hview3, heq, ← Links.between_eq hlast, hlast']
  obtain ⟨h5, hset5, hview5⟩ := JsonHeap.clear_view (h := h4) (a := a) (by rw [hview4]; exact hcA)
  refine ⟨h5, ?_, by rw [hview5, hview4]⟩
  have hset1' : (h.write item fun cell => { cell with next := c0.next }) = some h1 := hset1
  have hset2' : (h1.write item fun cell => { cell with prev := c1.prev }) = some h2 := hset2
  simp only [Option.bind_eq_bind] at hset4
  simp only [takePlace, Option.bind_eq_bind, Option.bind_some, hc0, hset1', hc1, hset2', hn, hset3, hset4, hset5]

theorem JsonView.Tidy.takePlace {v v' : JsonView δ} (ht : v.Tidy kids) (hadd : v.Addable kids array item)
    (hkids : kids array = xs ++ a :: ys) (hview : v' =
      { v with
        toLinks := ((v.toLinks.join xs.getLast? (some item)).join (some item) ys.head?).clear a
        first := Function.update v.first array (xs ++ item :: ys).head? }) :
    v'.Tidy (Function.update kids array (xs ++ item :: ys)) ∧
      IsRoot (Function.update kids array (xs ++ item :: ys)) a := by
  have hseg := ht.linked array
  have hcells := ht.cells array
  have hnodup := ht.nodup array
  have hitem : item ∉ xs ++ a :: ys := hkids ▸ hadd.root array
  rw [hkids] at hseg hcells hnodup
  obtain ⟨hxs, -, -, hys⟩ := seg_append.mp hseg
  have hsub : (xs ++ ys).Sublist (xs ++ a :: ys) := (List.sublist_cons_self a ys).append_left xs
  have ha : a ∉ xs ++ item :: ys := by
    intro hmem
    rcases List.mem_cons.mp (List.perm_middle.mem_iff.mp hmem) with heq | hmem
    · exact hitem (by simp [heq])
    · exact (List.nodup_cons.mp (List.nodup_middle.mp hnodup)).1 hmem
  have hnodup' : (xs ++ item :: ys).Nodup :=
    List.nodup_middle.mpr (List.nodup_cons.mpr ⟨fun hmem => hitem (hsub.subset hmem), hnodup.sublist hsub⟩)
  have hlinks : ∀ b, b ≠ a → b ∉ xs ++ item :: ys → v'.next b = v.next b ∧ v'.prev b = v.prev b := by
    intro b hb hapart
    have hb_item : some item ≠ some b := fun heq => hapart (by simp [Option.some.inj heq])
    rw [hview]
    constructor
    · refine (Links.clear_next hb).trans ((Links.join_next hb_item).trans (Links.join_next fun heq => ?_))
      exact hapart (List.mem_append_left _ (List.mem_of_getLast? heq))
    · refine (Links.clear_prev hb).trans ((Links.join_prev fun heq => ?_).trans (Links.join_prev hb_item))
      exact hapart (List.mem_append_right _ (List.mem_cons_of_mem item (List.mem_of_head? heq)))
  constructor
  · -- first with both items, and then without the old one
    have hboth : Forest (v.parts (Function.update kids array (xs ++ item :: a :: ys))) :=
      ht.forest_insert hadd.cell hadd.root hadd.apart (hkids ▸ List.perm_middle)
    refine ht.relist hadd.owner (fun b hb => ?_) (hboth.mono fun b => ?_) (by rw [hview]) (by rw [hview]) ?_ ?_ ?_
    · rcases List.mem_cons.mp (List.perm_middle.mem_iff.mp hb) with rfl | hb
      · exact hadd.cell
      · exact hcells b (hsub.subset hb)
    · by_cases hb : b = array
      · rw [hb, parts, Function.update_self, parts, Function.update_self]
        exact (((List.sublist_cons_self a ys).cons_cons item).append_left xs).append_left _
      · rw [parts, Function.update_of_ne hb, parts, Function.update_of_ne hb]
    · rw [hview]
      exact (Seg.between hxs (ht.loose item hadd.root) hys hnodup').clear ha
    · intro a' ha' b hb
      have hapart : b ∉ xs ++ a :: ys := fun hmem => ha' (ht.unique hb (hkids ▸ hmem))
      refine hlinks b (fun heq => hapart (by simp [heq])) fun hmem => ?_
      rcases List.mem_cons.mp (List.perm_middle.mem_iff.mp hmem) with rfl | hmem
      · exact hadd.root a' hb
      · exact hapart (hsub.subset hmem)
    · intro b hb hother
      by_cases heq : b = a
      · rw [hview, heq]
        exact Links.clear_self
      · obtain ⟨hn, hp⟩ := hlinks b heq hb
        rw [hn, hp]
        refine ht.loose b fun a' hmem => ?_
        by_cases ha' : a' = array
        · rw [ha', hkids] at hmem
          rcases List.mem_cons.mp (List.perm_middle.mem_iff.mp hmem) with heq' | hmem
          · exact heq heq'
          · exact hb (((List.sublist_cons_self item ys).append_left xs).subset hmem)
        · exact hother a' ha' hmem
  · intro b hmem
    by_cases hb : b = array
    · rw [hb, Function.update_self] at hmem
      exact ha hmem
    · rw [Function.update_of_ne hb] at hmem
      exact hb (ht.unique hmem (hkids ▸ List.mem_append_right xs List.mem_cons_self))

theorem replaceItemInArray_tidy (ht : h.view.Tidy kids) (hadd : h.view.Addable kids array item)
    (hkids : kids array = xs ++ a :: ys) (hwhich : which.toNat = xs.length) :
    ∃ h', Ends (fun fuel => replaceItemInArray fuel array which item h) h' ∧
      h'.view.Tidy (h.view.pruned (Function.update kids array (xs ++ item :: ys)) a) := by
  obtain ⟨c, hc, hfind⟩ := nthSibling_child ht hadd.owner which
  rw [hkids, hwhich, List.drop_left] at hfind
  obtain ⟨h1, hplace, hview⟩ := takePlace_view ht hadd hkids
  obtain ⟨ht1, hroot⟩ := ht.takePlace hadd hkids hview
  have hcontents : h1.view.contents = h.view.contents := by rw [hview]
  have hcell : h1.view.IsCell a := by
    rw [IsCell, hcontents]
    exact ht.cells array a (by simp [hkids])
  obtain ⟨h2, ⟨n, hn⟩, -, ht2⟩ := cJsonDelete_tidy ht1 hcell hroot
  refine ⟨h2, ⟨n, fun fuel hle => ?_⟩, pruned_congr hcontents ▸ ht2⟩
  simp only [replaceItemInArray, hc, Option.bind_eq_bind, Option.bind_some, hwhich, hfind, List.head?_cons, hplace]
  exact hn fuel hle

theorem replaceItemInArray_beyond (ht : h.view.Tidy kids) (harray : h.view.IsOwner array)
    (hwhich : (kids array).length ≤ which.toNat) (fuel : Nat) :
    replaceItemInArray fuel array which item h = some h := by
  obtain ⟨c, hc, hfind⟩ := nthSibling_child ht harray which
  rw [List.drop_eq_nil_of_le hwhich] at hfind
  simp only [replaceItemInArray, hc, Option.bind_eq_bind, Option.bind_some, hfind, List.head?_nil]

end

end

end PostfixEdm
