import PostfixEdm.Base.CJsonView

/-!
# Items and what they own

* `JsonView.Tidy` : every list of children is linked both ways, every block is owned once, and no text is lost;
* `JsonView.Tidy.relist` : a new list of children;
* `JsonView.Tidy.create`, `JsonView.TextSwap.tidy` : a new cell, and a new text.
-/

namespace PostfixEdm

open Linked Ownership

variable {δ : Type}

/-! ## Tidy views -/

namespace JsonView

variable {v v' : JsonView δ} {kids : Addr → List Addr} {a b array item : Addr} {xs : List Addr}

def texts (v : JsonView δ) (a : Addr) : List Addr :=
  match v.contents a with
  | some (.cell c) => c.texts
  | _ => []

def IsCell (v : JsonView δ) (a : Addr) : Prop := ∃ c, v.contents a = some (.cell c)

/-- A cell whose children are its own. -/
def IsOwner (v : JsonView δ) (a : Addr) : Prop := ∃ c, v.contents a = some (.cell c) ∧ c.isReference = false

def IsText (v : JsonView δ) (a : Addr) : Prop := ∃ s, v.contents a = some (.text s)

/-- What a cell owns: its texts and its children. -/
def parts (v : JsonView δ) (kids : Addr → List Addr) (a : Addr) : List Addr := v.texts a ++ kids a

theorem IsOwner.isCell (h : v.IsOwner a) : v.IsCell a := h.imp fun _ hc => hc.1

theorem IsCell.not_isText (h : v.IsCell a) : ¬ v.IsText a := by
  rintro ⟨s, hs⟩
  obtain ⟨c, hc⟩ := h
  rw [hc] at hs
  cases hs

theorem texts_congr (h : v'.contents = v.contents) : v'.texts = v.texts := by
  funext a
  simp only [texts, h]

theorem texts_eq_nil (ha : ¬ v.IsCell a) : v.texts a = [] := by
  unfold texts
  split
  · next c hc => exact absurd ⟨c, hc⟩ ha
  · rfl

theorem texts_of_contents {c : JsonCell δ} (hc : v.contents a = some (.cell c)) : v.texts a = c.texts := by
  simp [texts, hc]

theorem mem_parts : b ∈ v.parts kids a ↔ b ∈ v.texts a ∨ b ∈ kids a := List.mem_append

structure Tidy (v : JsonView δ) (kids : Addr → List Addr) : Prop where
  forest : Forest (v.parts kids)
  linked : ∀ a, Seg v.toLinks none (kids a) none
  loose : ∀ b, IsRoot kids b → v.next b = none ∧ v.prev b = none
  first : ∀ a, v.IsOwner a → v.first a = (kids a).head?
  owner : ∀ a, kids a ≠ [] → v.IsOwner a
  cells : ∀ a, ∀ b ∈ kids a, v.IsCell b
  isText : ∀ a, ∀ b ∈ v.texts a, v.IsText b
  held : ∀ b, v.IsText b → ∃ a, b ∈ v.texts a

namespace Tidy

theorem nodup (h : Tidy v kids) (a : Addr) : (kids a).Nodup := (List.nodup_append.mp (h.forest.nodup a)).2.1

theorem unique (h : Tidy v kids) {a' : Addr} (ha : b ∈ kids a) (ha' : b ∈ kids a') : a = a' :=
  h.forest.unique a a' b (mem_parts.mpr (.inr ha)) (mem_parts.mpr (.inr ha'))

/-- A cell that is in no list is owned by nothing. -/
theorem isRoot (h : Tidy v kids) (hitem : v.IsCell item) (hroot : IsRoot kids item) : IsRoot (v.parts kids) item := by
  intro a hmem
  rcases mem_parts.mp hmem with htext | hkid
  · exact hitem.not_isText (h.isText a item htext)
  · exact hroot a hkid

/-- One list of children is another one, and the cells that leave it are loose. -/
theorem relist (h : Tidy v kids) (howner : v.IsOwner array) (hcells : ∀ b ∈ xs, v.IsCell b)
    (hforest : Forest (v.parts (Function.update kids array xs))) (hcontents : v'.contents = v.contents)
    (hfirst : v'.first = Function.update v.first array xs.head?) (hxs : Seg v'.toLinks none xs none)
    (hother : ∀ a, a ≠ array → ∀ b ∈ kids a, v'.next b = v.next b ∧ v'.prev b = v.prev b)
    (hloose : ∀ b, b ∉ xs → (∀ a, a ≠ array → b ∉ kids a) → v'.next b = none ∧ v'.prev b = none) :
    Tidy v' (Function.update kids array xs) := by
  have htexts : v'.texts = v.texts := texts_congr hcontents
  have hisOwner : ∀ a, v'.IsOwner a ↔ v.IsOwner a := fun a => by rw [IsOwner, hcontents, IsOwner]
  have hisCell : ∀ a, v'.IsCell a ↔ v.IsCell a := fun a => by rw [IsCell, hcontents, IsCell]
  have hisText : ∀ a, v'.IsText a ↔ v.IsText a := fun a => by rw [IsText, hcontents, IsText]
  have hne : ∀ {a}, a ≠ array → Function.update kids array xs a = kids a := fun ha => Function.update_of_ne ha ..
  have hself : Function.update kids array xs array = xs := Function.update_self ..
  refine ⟨?_, fun a => ?_, fun b hb => ?_, fun a ha => ?_, fun a ha => ?_, fun a b hb => ?_, ?_, ?_⟩
  · have hparts : v'.parts (Function.update kids array xs) = v.parts (Function.update kids array xs) := by
      funext a
      rw [parts, htexts, parts]
    exact hparts ▸ hforest
  · by_cases ha : a = array
    · subst ha
      rwa [hself]
    · rw [hne ha]
      exact (h.linked a).congr (fun b hb => (hother a ha b hb).1) fun b hb => (hother a ha b hb).2
  · refine hloose b (hself ▸ hb array) fun a ha => ?_
    rw [← hne ha]
    exact hb a
  · rw [hfirst]
    by_cases heq : a = array
    · subst heq
      rw [Function.update_self, hself]
    · rw [Function.update_of_ne heq, hne heq]
      exact h.first a ((hisOwner a).mp ha)
  · rw [hisOwner]
    by_cases heq : a = array
    · exact heq ▸ howner
    · rw [hne heq] at ha
      exact h.owner a ha
  · rw [hisCell]
    by_cases heq : a = array
    · subst heq
      rw [hself] at hb
      exact hcells b hb
    · rw [hne heq] at hb
      exact h.cells a b hb
  · intro a b hb
    rw [hisText]
    exact h.isText a b (htexts ▸ hb)
  · intro b hb
    rw [htexts]
    exact h.held b ((hisText b).mp hb)

/-- A list of children with one more, which is in no list yet. -/
theorem forest_insert (h : Tidy v kids) (hitem : v.IsCell item) (hroot : IsRoot kids item)
    (hbelow : ¬ Below (v.parts kids) item array) (hperm : xs.Perm (item :: kids array)) :
    Forest (v.parts (Function.update kids array xs)) := by
  refine h.forest.attach (h.isRoot hitem hroot) hbelow (a := array) ?_ fun b hb => ?_
  · rw [parts, Function.update_self, parts]
    exact (hperm.append_left _).trans List.perm_middle
  · rw [parts, Function.update_of_ne hb, parts]

theorem forest_sublist (h : Tidy v kids) (hsub : xs.Sublist (kids array)) :
    Forest (v.parts (Function.update kids array xs)) := by
  refine h.forest.mono fun a => ?_
  by_cases ha : a = array
  · subst ha
    rw [parts, Function.update_self]
    exact hsub.append_left _
  · rw [parts, Function.update_of_ne ha, parts]

/-! ## New cells and new texts -/

theorem kids_eq_nil (h : Tidy v kids) (ha : ¬ v.IsCell a) : kids a = [] :=
  not_not.mp fun hne => ha (h.owner a hne).isCell

/-- A new cell. -/
theorem create (h : Tidy v kids) (hnone : v.contents a = none) {c : JsonCell δ} (hc : c.texts = [])
    (hlinks : v'.toLinks = v.toLinks) (hfirst : ∀ b, b ≠ a → v'.first b = v.first b)
    (hnew : c.isReference = false → v'.first a = none)
    (hcontents : v'.contents = Function.update v.contents a (some (.cell c))) : Tidy v' kids := by
  have hnotCell : ¬ v.IsCell a := by
    rintro ⟨c, hc⟩
    cases hnone.symm.trans hc
  have hself : v'.contents a = some (.cell c) := by rw [hcontents, Function.update_self]
  have hne : ∀ {b}, b ≠ a → v'.contents b = v.contents b := fun hb => by rw [hcontents, Function.update_of_ne hb]
  have htexts : v'.texts = v.texts := by
    funext b
    by_cases hb : b = a
    · rw [hb, texts_of_contents hself, hc, texts_eq_nil hnotCell]
    · simp only [texts, hne hb]
  have hkeep : ∀ {b block}, v.contents b = some block → v'.contents b = some block := by
    intro b block hb
    rwa [hne]
    rintro rfl
    cases hnone.symm.trans hb
  refine ⟨?_, hlinks ▸ h.linked, hlinks ▸ h.loose, fun b hb => ?_, fun b hb => ?_, fun b x hx => ?_, fun b x hx => ?_,
    fun x hx => ?_⟩
  · have hparts : v'.parts kids = v.parts kids := by
      funext b
      rw [parts, htexts, parts]
    exact hparts ▸ h.forest
  · obtain ⟨c', hc', href⟩ := hb
    by_cases hba : b = a
    · subst hba
      rw [hself] at hc'
      cases hc'
      rw [hnew href, h.kids_eq_nil hnotCell]
      rfl
    · rw [hfirst b hba]
      exact h.first b ⟨c', (hne hba).symm.trans hc', href⟩
  · obtain ⟨c', hc', href⟩ := h.owner b hb
    exact ⟨c', hkeep hc', href⟩
  · obtain ⟨c', hc'⟩ := h.cells b x hx
    exact ⟨c', hkeep hc'⟩
  · obtain ⟨s, hs⟩ := h.isText b x (htexts ▸ hx)
    exact ⟨s, hkeep hs⟩
  · rw [htexts]
    obtain ⟨s, hs⟩ := hx
    refine h.held x ⟨s, ?_⟩
    rwa [← hne]
    rintro rfl
    rw [hself] at hs
    cases hs

end Tidy

/-- A cell gets a new text, for an old one or for none. -/
structure TextSwap (v v' : JsonView δ) (a : Addr) (c c' : JsonCell δ) (old : Option Addr) (t : Addr) (s : CString)
    (rest : List Addr) : Prop where
  cell : v.contents a = some (.cell c)
  oldTexts : c.texts = old.toList ++ rest
  newTexts : c'.texts = t :: rest
  reference : c'.isReference = c.isReference
  fresh : JsonHeap.without v.contents old t = none
  links : v'.toLinks = v.toLinks
  first : v'.first = v.first
  contents : v'.contents =
    Function.update (Function.update (JsonHeap.without v.contents old) t (some (.text s))) a (some (.cell c'))

namespace TextSwap

variable {c c' cb : JsonCell δ} {old : Option Addr} {t x : Addr} {s : CString} {rest : List Addr}

theorem texts_eq (hs : TextSwap v v' a c c' old t s rest) : v.texts a = old.toList ++ rest :=
  (texts_of_contents hs.cell).trans hs.oldTexts

theorem contents_self (hs : TextSwap v v' a c c' old t s rest) : v'.contents a = some (.cell c') := by
  rw [hs.contents, Function.update_self]

theorem texts_self (hs : TextSwap v v' a c c' old t s rest) : v'.texts a = t :: rest :=
  (texts_of_contents hs.contents_self).trans hs.newTexts

theorem contents_of_ne (hs : TextSwap v v' a c c' old t s rest) (ha : b ≠ a) (hbt : b ≠ t) :
    v'.contents b = JsonHeap.without v.contents old b := by
  rw [hs.contents, Function.update_of_ne ha, Function.update_of_ne hbt]

/-- At the place of the new text there was nothing, or the old text. -/
theorem eq_old (hs : TextSwap v v' a c c' old t s rest) {block : JsonBlock δ} (hb : v.contents t = some block) :
    old = some t := by
  by_contra hne
  cases hs.fresh.symm.trans ((if_neg hne).trans hb)

theorem mem_parts_old (hs : TextSwap v v' a c c' old t s rest) (hold : old = some x) : x ∈ v.parts kids a :=
  mem_parts.mpr (.inl (by simp [hs.texts_eq, hold]))

theorem isText_of_ne (hs : TextSwap v v' a c c' old t s rest) (hx : v.IsText x) (hold : old ≠ some x) :
    v'.IsText x := by
  obtain ⟨s', hs'⟩ := hx
  have hxa : x ≠ a := by
    rintro rfl
    cases hs.cell.symm.trans hs'
  have hxt : x ≠ t := by
    rintro rfl
    exact hold (hs.eq_old hs')
  exact ⟨s', by rw [hs.contents_of_ne hxa hxt, JsonHeap.without, if_neg hold, hs']⟩

/-- What is there was there before, except for the cell and its new text. -/
theorem before (hs : TextSwap v v' a c c' old t s rest) {block : JsonBlock δ} (ha : b ≠ a) (hbt : b ≠ t)
    (hb : v'.contents b = some block) :
    v.contents b = some block ∧ old ≠ some b := by
  rw [hs.contents_of_ne ha hbt] at hb
  by_cases hold : old = some b
  · rw [JsonHeap.without, if_pos hold] at hb
    cases hb
  · rw [JsonHeap.without, if_neg hold] at hb
    exact ⟨hb, hold⟩

variable (hs : TextSwap v v' a c c' old t s rest) (h : v.Tidy kids)
include hs h

theorem isText_of_mem (hx : x ∈ old.toList ++ rest) : v.IsText x := h.isText a x (hs.texts_eq ▸ hx)

theorem notMem_rest (hold : old = some x) : x ∉ rest := by
  intro hx
  have hnodup : (old.toList ++ rest).Nodup := hs.texts_eq ▸ (List.nodup_append.mp (h.forest.nodup a)).1
  exact (List.nodup_append.mp hnodup).2.2 x (by simp [hold]) x hx rfl

theorem not_isCell_old (hold : old = some x) : ¬ v.IsCell x := fun hcell =>
  hcell.not_isText (hs.isText_of_mem h (by simp [hold]))

theorem not_isCell_new : ¬ v.IsCell t := by
  intro hcell
  obtain ⟨c, hc⟩ := id hcell
  exact hs.not_isCell_old h (hs.eq_old hc) hcell

theorem ne_new : a ≠ t := by
  rintro rfl
  exact hs.not_isCell_new h ⟨c, hs.cell⟩

theorem contents_new : v'.contents t = some (.text s) := by
  rw [hs.contents, Function.update_of_ne (hs.ne_new h).symm, Function.update_self]

theorem cell_of_ne (hb : b ≠ a) (hcb : v.contents b = some (.cell cb)) : v'.contents b = some (.cell cb) := by
  have hbt : b ≠ t := by
    rintro rfl
    exact hs.not_isCell_new h ⟨cb, hcb⟩
  have hold : old ≠ some b := fun heq => hs.not_isCell_old h heq ⟨cb, hcb⟩
  rw [hs.contents_of_ne hb hbt, JsonHeap.without, if_neg hold, hcb]

theorem texts_of_ne (hb : b ≠ a) : v'.texts b = v.texts b := by
  by_cases hcb : v.IsCell b
  · obtain ⟨cb, hcb⟩ := hcb
    rw [texts_of_contents hcb, texts_of_contents (hs.cell_of_ne h hb hcb)]
  · rw [texts_eq_nil hcb, texts_eq_nil]
    rintro ⟨cb, hcb'⟩
    by_cases hbt : b = t
    · cases (hs.contents_new h).symm.trans (hbt ▸ hcb')
    · exact hcb ⟨cb, (hs.before hb hbt hcb').1⟩

theorem parts_of_ne (hb : b ≠ a) : v'.parts kids b = v.parts kids b := by
  rw [parts, hs.texts_of_ne h hb, parts]

theorem parts_new : v'.parts kids t = [] := by
  rw [hs.parts_of_ne h (hs.ne_new h).symm, parts, texts_eq_nil (hs.not_isCell_new h),
    h.kids_eq_nil (hs.not_isCell_new h)]
  rfl

theorem forest : Forest (v'.parts kids) := by
  -- first without the old text
  have hmid : Forest (Function.update (v.parts kids) a (rest ++ kids a)) := by
    refine h.forest.mono fun b => ?_
    by_cases hb : b = a
    · rw [hb, Function.update_self, parts, hs.texts_eq, List.append_assoc]
      exact List.sublist_append_right _ _
    · rw [Function.update_of_ne hb]
  refine hmid.attach (r := t) (a := a) (fun b hmem => ?_) (fun hbelow => ?_) ?_ fun b hb => ?_
  · by_cases hb : b = a
    · rw [hb, Function.update_self] at hmem
      rcases List.mem_append.mp hmem with hmem | hmem
      · obtain ⟨s, hs'⟩ := hs.isText_of_mem h (List.mem_append_right _ hmem)
        exact hs.notMem_rest h (hs.eq_old hs') hmem
      · exact hs.not_isCell_new h (h.cells a t hmem)
    · rw [Function.update_of_ne hb] at hmem
      rcases mem_parts.mp hmem with hmem' | hmem'
      · obtain ⟨s, hs'⟩ := h.isText b t hmem'
        exact hb (h.forest.unique b a t hmem (hs.mem_parts_old (hs.eq_old hs')))
      · exact hs.not_isCell_new h (h.cells b t hmem')
  · refine hs.ne_new h (hbelow.eq_of_nil ?_).symm
    rw [Function.update_of_ne (hs.ne_new h).symm, ← hs.parts_of_ne h (hs.ne_new h).symm, hs.parts_new h]
  · rw [Function.update_self, parts, hs.texts_self]
    rfl
  · rw [Function.update_of_ne hb, hs.parts_of_ne h hb]

theorem tidy : v'.Tidy kids := by
  refine ⟨hs.forest h, hs.links ▸ h.linked, hs.links ▸ h.loose, fun b hb => ?_, fun b hb => ?_, fun b x hx => ?_,
    fun b x hx => ?_, fun x hx => ?_⟩
  · rw [hs.first]
    refine h.first b ?_
    obtain ⟨cb, hcb, hrb⟩ := hb
    by_cases hba : b = a
    · subst hba
      cases hs.contents_self.symm.trans hcb
      exact ⟨c, hs.cell, hs.reference.symm.trans hrb⟩
    · have hbt : b ≠ t := by
        rintro rfl
        cases (hs.contents_new h).symm.trans hcb
      exact ⟨cb, (hs.before hba hbt hcb).1, hrb⟩
  · obtain ⟨cb, hcb, hrb⟩ := h.owner b hb
    by_cases hba : b = a
    · subst hba
      cases hs.cell.symm.trans hcb
      exact ⟨c', hs.contents_self, hs.reference.trans hrb⟩
    · exact ⟨cb, hs.cell_of_ne h hba hcb, hrb⟩
  · by_cases hxa : x = a
    · exact ⟨c', hxa ▸ hs.contents_self⟩
    · obtain ⟨cx, hcx⟩ := h.cells b x hx
      exact ⟨cx, hs.cell_of_ne h hxa hcx⟩
  · by_cases hba : b = a
    · rw [hba, hs.texts_self] at hx
      rcases List.mem_cons.mp hx with rfl | hx
      · exact ⟨s, hs.contents_new h⟩
      · exact hs.isText_of_ne (hs.isText_of_mem h (List.mem_append_right _ hx)) fun heq => hs.notMem_rest h heq hx
    · rw [hs.texts_of_ne h hba] at hx
      refine hs.isText_of_ne (h.isText b x hx) fun heq => hba ?_
      exact h.forest.unique b a x (mem_parts.mpr (.inl hx)) (hs.mem_parts_old heq)
  · by_cases hxt : x = t
    · exact ⟨a, by simp [hs.texts_self, hxt]⟩
    · obtain ⟨s', hs'⟩ := hx
      have hxa : x ≠ a := by
        rintro rfl
        cases hs.contents_self.symm.trans hs'
      obtain ⟨hsx, hold⟩ := hs.before hxa hxt hs'
      obtain ⟨b, hb⟩ := h.held x ⟨s', hsx⟩
      by_cases hba : b = a
      · refine ⟨a, ?_⟩
        rw [hba, hs.texts_eq] at hb
        rw [hs.texts_self]
        rcases List.mem_append.mp hb with hb | hb
        · exact absurd (by simpa using hb) hold
        · exact List.mem_cons_of_mem t hb
      · exact ⟨b, (hs.texts_of_ne h hba).symm ▸ hb⟩

/-- No more cells are below the cell than before. -/
theorem below (hbelow : Below (v'.parts kids) a x) : x = t ∨ Below (v.parts kids) a x := by
  induction hbelow with
  | refl => exact Or.inr (.refl a)
  | @tail y z _ hz ih =>
    rcases ih with rfl | hy
    · rw [hs.parts_new h] at hz
      cases hz
    · by_cases hya : y = a
      · subst hya
        rw [parts, hs.texts_self, List.cons_append, List.mem_cons] at hz
        refine hz.imp id fun hz => hy.tail ?_
        rw [parts, hs.texts_eq, List.append_assoc]
        exact List.mem_append_right _ hz
      · exact Or.inr (hy.tail (hs.parts_of_ne h hya ▸ hz))

end TextSwap

end JsonView

end PostfixEdm
