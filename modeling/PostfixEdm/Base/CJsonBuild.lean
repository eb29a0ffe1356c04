import PostfixEdm.Base.CJsonRead

/-!
# Items that are built in memory

* `Builds` : from a heap to another one, an item has been built of new blocks, and all else is as it was;
* `JsonView.MemberAdded` : what `addItemToObject` does to the blocks;
* `Builds.createObject`, `Builds.createNumber`, `Builds.createString`, `Builds.addToObject` : the calls of a program
  that builds one;
* `Builds.reads`, `Builds.deletes` : it is printed as that item, and `cJsonDelete` frees what was allocated for it.
-/

namespace PostfixEdm

open Linked Ownership Fuel

variable {δ : Type}

/-- From `h` on, an item has been built at `a`, of new blocks only; all else is as it was. -/
structure Builds (h : JsonHeap δ) (kids : Addr → List Addr) (h' : JsonHeap δ) (kids' : Addr → List Addr) (a : Addr)
    (item : JsonItem δ) : Prop where
  tidy : h'.view.Tidy kids'
  root : IsRoot kids' a
  shows : h'.view.Shows kids' item a
  unnamed : ∃ c, h'.view.Has a c ∧ c.string = none
  fresh : ∀ b, Below (h'.view.parts kids') a b → h.view.contents b = none
  others : ∀ b, ¬ Below (h'.view.parts kids') a b → h'.view.contents b = h.view.contents b ∧ kids' b = kids b

section
open JsonView

variable {h h₁ h₂ h' : JsonHeap δ} {kids kids₁ kids₂ kids' : Addr → List Addr} {a b o : Addr} {item : JsonItem δ}
  {members : JsonMembers δ} {name : CString}

/-- What is below an item is there. -/
theorem JsonView.Tidy.contents_ne_none {v : JsonView δ} (ht : v.Tidy kids) (ha : v.contents a ≠ none)
    (hbelow : Below (v.parts kids) a b) : v.contents b ≠ none := by
  cases hbelow with
  | refl => exact ha
  | @tail c _ _ hmem =>
    intro hnone
    rcases mem_parts.mp hmem with hmem | hmem
    · obtain ⟨s, hs⟩ := ht.isText c b hmem
      cases hnone.symm.trans hs
    · obtain ⟨c', hc'⟩ := ht.cells c b hmem
      cases hnone.symm.trans hc'

/-- An item without a name has become the last member of an object. -/
structure JsonView.MemberAdded (v v' : JsonView δ) (a : Addr) (c : JsonCell δ) (name : CString) (t : Addr) : Prop where
  unnamed : c.string = none
  before : v.contents a = some (.cell c)
  fresh : v.contents t = none
  cell : v'.contents a = some (.cell { c with string := some t })
  text : v'.contents t = some (.text name)
  keep : ∀ b, b ≠ a → b ≠ t → v'.contents b = v.contents b

theorem addItemToObject_member (malloc : Malloc δ) (ht : h.view.Tidy kids) (hadd : h.view.Addable kids o a)
    {c : JsonCell δ} (hc : h.view.contents a = some (.cell c)) (hname : c.string = none) (name : CString) :
    ∃ h' t, Ends (fun fuel => addItemToObject malloc fuel o (.outside name) (some a) h) h' ∧
      h'.view.Tidy (Function.update kids o (kids o ++ [a])) ∧ h.view.MemberAdded h'.view a c name t := by
  have hnames := h.names_outside a name
  obtain ⟨h', v, c', t, hends, hc', hcontents, ht', hswap⟩ := addItemToObject_tidy malloc ht hadd hnames
  cases hc'.symm.trans hc
  rw [hname] at hswap
  refine ⟨h', t, hends, ht', ⟨hname, hc, by simpa using hswap.fresh, hcontents ▸ hswap.contents_self,
    hcontents ▸ hswap.contents_new ht, fun b hba hbt => ?_⟩⟩
  rw [hcontents, hswap.contents_of_ne hba hbt, JsonHeap.without_none]

namespace JsonView.MemberAdded

variable {v v' : JsonView δ} {c : JsonCell δ} {t x : Addr}

theorem contents_eq (hm : v.MemberAdded v' a c name t) (hba : b ≠ a) (hb : v.contents b ≠ none) :
    v'.contents b = v.contents b := by
  refine hm.keep b hba ?_
  rintro rfl
  exact hb hm.fresh

theorem not_isCell_new (hm : v.MemberAdded v' a c name t) : ¬ v.IsCell t := by
  rintro ⟨c', hc'⟩
  cases hm.fresh.symm.trans hc'

theorem mem_texts (hm : v.MemberAdded v' a c name t) : x ∈ v'.texts b ↔ x ∈ v.texts b ∨ b = a ∧ x = t := by
  by_cases hba : b = a
  · subst hba
    rw [texts_of_contents hm.cell, texts_of_contents hm.before]
    have hown : ({ c with string := some t } : JsonCell δ).texts = t :: c.texts := by
      simp [JsonCell.texts, JsonCell.own, hm.unnamed]
    rw [hown, List.mem_cons]
    tauto
  · have htexts : v'.texts b = v.texts b := by
      by_cases hbt : b = t
      · subst hbt
        simp only [texts, hm.text, hm.fresh]
      · simp only [texts, hm.keep b hba hbt]
    rw [htexts]
    tauto

theorem mem_parts (hm : v.MemberAdded v' a c name t) :
    x ∈ v'.parts (Function.update kids o (kids o ++ [a])) b ↔ x ∈ v.parts kids b ∨ b = o ∧ x = a ∨ b = a ∧ x = t := by
  have hkids : x ∈ Function.update kids o (kids o ++ [a]) b ↔ x ∈ kids b ∨ b = o ∧ x = a := by
    by_cases hbo : b = o
    · subst hbo
      rw [Function.update_self, List.mem_append, List.mem_singleton]
      tauto
    · rw [Function.update_of_ne hbo]
      tauto
  rw [JsonView.mem_parts, JsonView.mem_parts, hm.mem_texts, hkids]
  tauto

theorem below_iff (hm : v.MemberAdded v' a c name t) (ht : v.Tidy kids) :
    Below (v'.parts (Function.update kids o (kids o ++ [a]))) o x ↔
      Below (v.parts kids) o x ∨ Below (v.parts kids) a x ∨ x = t := by
  refine below_graft (fun b x => hm.mem_parts) ?_
  rw [JsonView.parts, texts_eq_nil hm.not_isCell_new, ht.kids_eq_nil hm.not_isCell_new]
  rfl

/-- What has neither the object nor the member in it is as it was. -/
theorem sameBelow (hm : v.MemberAdded v' a c name t)
    (hbelow : ∀ x, Below (v.parts kids) b x → v.contents x ≠ none ∧ x ≠ a ∧ x ≠ o) :
    SameBelow v v' kids (Function.update kids o (kids o ++ [a])) b := by
  intro x hx
  obtain ⟨hthere, hxa, hxo⟩ := hbelow x hx
  exact ⟨hm.contents_eq hxa hthere, Function.update_of_ne hxo ..⟩

end JsonView.MemberAdded

namespace Builds

theorem contents_ne_none (hb : Builds h kids h' kids' a item) (hbelow : Below (h'.view.parts kids') a b) :
    h'.view.contents b ≠ none := by
  obtain ⟨c, hc, -⟩ := hb.unnamed
  exact hb.tidy.contents_ne_none (by rw [hc.1]; exact Option.some_ne_none _) hbelow

/-- What was there is not below the item. -/
theorem not_below (hb : Builds h kids h' kids' a item) (hold : h.view.contents b ≠ none) :
    ¬ Below (h'.view.parts kids') a b := fun hbelow => hold (hb.fresh b hbelow)

/-- A new item that owns nothing. -/
theorem of_empty (ht : h.view.Tidy kids) (ht' : h'.view.Tidy kids) {c : JsonCell δ} (hnone : h.view.contents a = none)
    (hcontents : h'.view.contents = Function.update h.view.contents a (some (.cell c)))
    (href : c.isReference = false) (hstring : c.string = none) (htexts : c.texts = [])
    (hshows : kids a = [] → h'.view.Has a c → h'.view.Shows kids item a) : Builds h kids h' kids a item := by
  have hnotCell : ¬ h.view.IsCell a := by
    rintro ⟨c, hc⟩
    cases hnone.symm.trans hc
  have hkids := ht.kids_eq_nil hnotCell
  have hhas : h'.view.Has a c := ⟨by rw [hcontents, Function.update_self], href⟩
  have hparts : h'.view.parts kids a = [] := by
    rw [JsonView.parts, texts_of_contents hhas.1, htexts, hkids]
    rfl
  refine ⟨ht', fun b hb => hnotCell (ht.cells b a hb), hshows hkids hhas, ⟨c, hhas, hstring⟩, fun b hb => ?_,
    fun b hb => ?_⟩
  · exact hb.eq_of_nil hparts ▸ hnone
  · refine ⟨?_, rfl⟩
    rw [hcontents, Function.update_of_ne]
    rintro rfl
    exact hb (.refl b)

theorem createObject (malloc : Malloc δ) (zero : δ) (ht : h.view.Tidy kids) :
    ∃ h' a, createItem malloc zero .object h = some (a, h') ∧ Builds h kids h' kids a (.object .nil) := by
  obtain ⟨h', hrun, hview⟩ := JsonHeap.createItem_view malloc zero .object h
  refine ⟨h', _, hrun, .of_empty ht (ht.newCell rfl hview) (JsonHeap.contents_fresh malloc h) (by rw [hview]) rfl rfl
    rfl fun hkids hhas => ⟨_, hhas, rfl, hkids⟩⟩

theorem createNumber (malloc : Malloc δ) (zero num : δ) (ht : h.view.Tidy kids) :
    ∃ h' a, createNumber malloc zero num h = some (a, h') ∧ Builds h kids h' kids a (.number num) := by
  obtain ⟨h', hrun, hview⟩ := JsonHeap.createNumber_view malloc zero num h
  refine ⟨h', _, hrun, .of_empty ht (ht.newCell rfl hview) (JsonHeap.contents_fresh malloc h) (by rw [hview]) rfl rfl
    rfl fun _ hhas => ⟨_, hhas, rfl, rfl⟩⟩

theorem createString (malloc : Malloc δ) (zero : δ) (s : CString) (ht : h.view.Tidy kids) :
    ∃ h' a, createString malloc zero s h = some (a, h') ∧ Builds h kids h' kids a (.string s) := by
  obtain ⟨h', t, hrun, hne, hnone, hview⟩ := JsonHeap.createString_view malloc zero s h
  have ht' := ht.newString hne hnone hview
  have hfresh := JsonHeap.contents_fresh malloc h
  have hnotCell : ∀ {b}, h.view.contents b = none → ¬ h.view.IsCell b := by
    rintro b hb ⟨c, hc⟩
    cases hb.symm.trans hc
  have hhas : h'.view.Has (malloc.addr h) { zeroCell zero with type := .string, valuestring := some t } :=
    ⟨by rw [hview]; exact Function.update_self .., rfl⟩
  have htext : h'.view.contents t = some (.text s) := by
    rw [hview]
    exact (Function.update_of_ne hne ..).trans (Function.update_self ..)
  have hparts : h'.view.parts kids (malloc.addr h) = [t] := by
    rw [JsonView.parts, texts_of_contents hhas.1, ht.kids_eq_nil (hnotCell hfresh)]
    rfl
  refine ⟨h', _, hrun, ht', fun b hb => hnotCell hfresh (ht.cells b _ hb), ⟨_, hhas, rfl, t, rfl, htext⟩,
    ⟨_, hhas, rfl⟩, fun b hb => ?_, fun b hb => ?_⟩
  · rcases Relation.ReflTransGen.cases_head hb with rfl | ⟨x, hx, hxb⟩
    · exact hfresh
    · rw [hparts, List.mem_singleton] at hx
      subst hx
      exact Below.eq_of_nil hxb (ht'.parts_text ⟨s, htext⟩) ▸ hnone
  · have hba : b ≠ malloc.addr h := by
      rintro rfl
      exact hb (.refl _)
    have hbt : b ≠ t := by
      rintro rfl
      exact hb (.head (hparts ▸ List.mem_singleton_self b) (.refl b))
    rw [hview]
    exact ⟨(Function.update_of_ne hba ..).trans (Function.update_of_ne hbt ..), rfl⟩

/-- Nothing that was there is freed. -/
theorem old (hb : Builds h kids h' kids' a item) (hnone : h'.view.contents b = none) : h.view.contents b = none := by
  by_contra hold
  exact hold ((hb.others b (hb.not_below hold)).1.symm.trans hnone)

theorem isRoot_of_old (hb₁ : Builds h kids h₁ kids₁ o (.object members)) (hb₂ : Builds h₁ kids₁ h₂ kids₂ a item) :
    IsRoot kids₂ o := by
  intro b hmem
  by_cases hbelow : Below (h₂.view.parts kids₂) a b
  · exact hb₂.not_below (hb₁.contents_ne_none (.refl o)) (hbelow.tail (mem_parts.mpr (.inr hmem)))
  · exact hb₁.root b ((hb₂.others b hbelow).2 ▸ hmem)

/-- What an object and a later item own is apart. -/
theorem same (hb₁ : Builds h kids h₁ kids₁ o (.object members)) (hb₂ : Builds h₁ kids₁ h₂ kids₂ a item) :
    SameBelow h₁.view h₂.view kids₁ kids₂ o := fun b hb => hb₂.others b (hb₂.not_below (hb₁.contents_ne_none hb))

/-- The object is as it was, when the later item is there. -/
theorem later (hb₁ : Builds h kids h₁ kids₁ o (.object members)) (hb₂ : Builds h₁ kids₁ h₂ kids₂ a item) {x : Addr}
    (hx : Below (h₂.view.parts kids₂) o x) : h₂.view.contents x ≠ none ∧ ¬ Below (h₂.view.parts kids₂) a x := by
  have hx₁ := hb₁.contents_ne_none ((hb₁.same hb₂).below hx)
  refine ⟨?_, hb₂.not_below hx₁⟩
  rw [(hb₂.others x (hb₂.not_below hx₁)).1]
  exact hx₁

/-- An object, then an item, which becomes its last member. -/
theorem addToObject (malloc : Malloc δ) (hb₁ : Builds h kids h₁ kids₁ o (.object members))
    (hb₂ : Builds h₁ kids₁ h₂ kids₂ a item) (name : CString) :
    ∃ h' kids', Ends (fun fuel => addItemToObject malloc fuel o (.outside name) (some a) h₂) h' ∧
      Builds h kids h' kids' o (.object (members.concat name item)) := by
  obtain ⟨c, hc, hcName⟩ := hb₂.unnamed
  have hsame := hb₁.same hb₂
  obtain ⟨co, hco, htype, hs⟩ : h₂.view.Shows kids₂ (.object members) o := hb₁.shows.congr hsame
  have hoa : ¬ Below (h₂.view.parts kids₂) a o := (hb₁.later hb₂ (.refl o)).2
  have hne : o ≠ a := fun heq => hoa (heq ▸ .refl o)
  have hadd : h₂.view.Addable kids₂ o a := ⟨⟨co, hco⟩, ⟨c, hc.1⟩, hb₂.root, hoa⟩
  obtain ⟨h', t, hends, ht', hm⟩ := addItemToObject_member malloc hb₂.tidy hadd hc.1 hcName name
  have hself : h'.view.contents o = h₂.view.contents o := hm.contents_eq hne (hb₁.later hb₂ (.refl o)).1
  refine ⟨h', _, hends, ht', fun b hb => ?root, ?shows, ?unnamed, fun b hb => ?fresh, fun b hb => ?others⟩
  case root =>
    by_cases hbo : b = o
    · subst hbo
      rw [Function.update_self, List.mem_append, List.mem_singleton] at hb
      exact hb.elim (hb₁.isRoot_of_old hb₂ b) hne
    · rw [Function.update_of_ne hbo] at hb
      exact hb₁.isRoot_of_old hb₂ b hb
  case shows =>
    refine ⟨co, ⟨hself.trans hco.1, hco.2⟩, htype, ?_⟩
    rw [Function.update_self]
    refine JsonView.ShowsMembers.concat (hs.congr fun b hb => hm.sameBelow fun x hx => ?_)
      ⟨_, ⟨hm.cell, hc.2⟩, t, rfl, hm.text⟩
      (hb₂.shows.named hc ⟨hm.cell, hc.2⟩ rfl (Function.update_of_ne hne.symm ..) fun b hb =>
        hm.sameBelow fun x hx => ?_)
    · obtain ⟨hthere, hax⟩ := hb₁.later hb₂ (.head (mem_parts.mpr (.inr hb)) hx)
      refine ⟨hthere, fun heq => hax (heq ▸ .refl x), fun heq => ?_⟩
      exact hb₂.tidy.forest.not_below (mem_parts.mpr (.inr hb)) (heq ▸ hx)
    · have hax : Below (h₂.view.parts kids₂) a x := .head hb hx
      refine ⟨hb₂.contents_ne_none hax, fun heq => ?_, fun heq => hoa (heq ▸ hax)⟩
      exact hb₂.tidy.forest.not_below hb (heq ▸ hx)
  case unnamed =>
    obtain ⟨co', hco', hname⟩ := hb₁.unnamed
    exact ⟨co', ⟨hself.trans (hco'.congr hsame).1, hco'.2⟩, hname⟩
  case fresh =>
    rcases (hm.below_iff hb₂.tidy).mp hb with hb | hb | rfl
    · exact hb₁.fresh b (hsame.below hb)
    · exact hb₁.old (hb₂.fresh b hb)
    · exact hb₁.old (hb₂.old hm.fresh)
  case others =>
    have hno := fun hb' => hb ((hm.below_iff hb₂.tidy).mpr hb')
    have hob : ¬ Below (h₁.view.parts kids₁) o b := fun hb' => hno (.inl (hsame.below' hb'))
    have hab : ¬ Below (h₂.view.parts kids₂) a b := fun hb' => hno (.inr (.inl hb'))
    have hba : b ≠ a := fun heq => hab (heq ▸ .refl b)
    have hbo : b ≠ o := fun heq => hob (heq ▸ .refl b)
    obtain ⟨hc₁, hk₁⟩ := hb₁.others b hob
    obtain ⟨hc₂, hk₂⟩ := hb₂.others b hab
    have hkeep := hm.keep b hba fun heq => hno (.inr (.inr heq))
    exact ⟨hkeep.trans (hc₂.trans hc₁), (Function.update_of_ne hbo ..).trans (hk₂.trans hk₁)⟩

theorem addString (malloc : Malloc δ) (zero : δ) (hb : Builds h kids h₁ kids₁ o (.object members)) (name s : CString) :
    ∃ h' kids', Ends (fun fuel => addStringToObject malloc zero fuel o (.outside name) s h₁) h' ∧
      Builds h kids h' kids' o (.object (members.concat name (.string s))) := by
  obtain ⟨h₂, a, hcreate, hitem⟩ := createString malloc zero s hb.tidy
  obtain ⟨h', kids', ⟨n, hn⟩, hb'⟩ := hb.addToObject malloc hitem name
  exact ⟨h', kids', ⟨n, fun fuel hle => by simpa [addStringToObject, hcreate] using hn fuel hle⟩, hb'⟩

theorem addNumber (malloc : Malloc δ) (zero : δ) (hb : Builds h kids h₁ kids₁ o (.object members)) (name : CString)
    (num : δ) : ∃ h' kids', Ends (fun fuel => addNumberToObject malloc zero fuel o (.outside name) num h₁) h' ∧
      Builds h kids h' kids' o (.object (members.concat name (.number num))) := by
  obtain ⟨h₂, a, hcreate, hitem⟩ := createNumber malloc zero num hb.tidy
  obtain ⟨h', kids', ⟨n, hn⟩, hb'⟩ := hb.addToObject malloc hitem name
  exact ⟨h', kids', ⟨n, fun fuel hle => by simpa [addNumberToObject, hcreate] using hn fuel hle⟩, hb'⟩

/-- The item is what a printer finds, and when it is deleted, there is what was there before. -/
theorem reads (hb : Builds h kids h' kids' a item) : Ends (fun fuel => readItem fuel h' a) item :=
  hb.shows.reads hb.tidy

theorem deletes (hb : Builds h kids h' kids' a item) :
    ∃ h'', Ends (fun fuel => cJsonDelete fuel (some a) h') h'' ∧ h''.view.contents = h.view.contents := by
  obtain ⟨c, hc, -⟩ := hb.unnamed
  obtain ⟨h'', hends, hdrops, -⟩ := cJsonDelete_tidy hb.tidy ⟨c, hc.1⟩ hb.root
  refine ⟨h'', hends, ?_⟩
  funext b
  by_cases hbelow : Below (h'.view.parts kids') a b
  · rw [(hdrops.view.1 hbelow).1, hb.fresh b hbelow]
  · rw [(hdrops.view.2 hbelow).1, (hb.others b hbelow).1]

end Builds

end

end PostfixEdm
