import PostfixEdm.Base.CJsonDelete

/-!
# What a printer finds at an address

* `JsonView.Shows` : the cell at an address, with what is below it, is an item;
* `JsonView.Shows.congr`, `JsonView.Shows.named` : nothing else matters, and the name of the item itself does not;
* `JsonView.Shows.reads` : the item is then what the printer finds.
-/

namespace PostfixEdm

open Linked Ownership Fuel

variable {δ : Type}

/-- One more member, at the end. -/
def JsonMembers.concat : JsonMembers δ → CString → JsonItem δ → JsonMembers δ
  | .nil, name, item => .cons name item .nil
  | .cons name' item' next, name, item => .cons name' item' (next.concat name item)

def JsonMembers.append : JsonMembers δ → JsonMembers δ → JsonMembers δ
  | .nil, members => members
  | .cons name item next, members => .cons name item (next.append members)

theorem JsonMembers.concat_append (members next : JsonMembers δ) (name : CString) (item : JsonItem δ) :
    (members.concat name item).append next = members.append (.cons name item next) := by
  match members with
  | .nil => rfl
  | .cons _ _ rest => rw [concat, append, concat_append rest, append]

theorem JsonMembers.append_nil (members : JsonMembers δ) : members.append .nil = members := by
  match members with
  | .nil => rfl
  | .cons _ _ rest => rw [append, append_nil rest]

namespace JsonView

/-- An item with its own children. -/
def Has (v : JsonView δ) (a : Addr) (c : JsonCell δ) : Prop := v.contents a = some (.cell c) ∧ c.isReference = false

/-- A pointer to a text. -/
def HasText (v : JsonView δ) (p : Option Addr) (s : CString) : Prop := ∃ t, p = some t ∧ v.contents t = some (.text s)

section
variable (v : JsonView δ) (kids : Addr → List Addr)

mutual
def Shows : JsonItem δ → Addr → Prop
  | .null, a => ∃ c, v.Has a c ∧ c.type = .null
  | .false, a => ∃ c, v.Has a c ∧ c.type = .false
  | .true, a => ∃ c, v.Has a c ∧ c.type = .true
  | .number x, a => ∃ c, v.Has a c ∧ c.type = .number ∧ c.valuedouble = x
  | .string s, a => ∃ c, v.Has a c ∧ c.type = .string ∧ v.HasText c.valuestring s
  | .array items, a => ∃ c, v.Has a c ∧ c.type = .array ∧ ShowsItems items (kids a)
  | .object members, a => ∃ c, v.Has a c ∧ c.type = .object ∧ ShowsMembers members (kids a)

def ShowsItems : JsonItems δ → List Addr → Prop
  | .nil, xs => xs = []
  | .cons item next, xs => ∃ a ys, xs = a :: ys ∧ Shows item a ∧ ShowsItems next ys

def ShowsMembers : JsonMembers δ → List Addr → Prop
  | .nil, xs => xs = []
  | .cons name item next, xs => ∃ a ys, xs = a :: ys ∧ (∃ c, v.Has a c ∧ v.HasText c.string name) ∧ Shows item a ∧
      ShowsMembers next ys
end

end

variable {v v' : JsonView δ} {kids kids' : Addr → List Addr} {a r : Addr} {c : JsonCell δ}

/-- The same cells and texts, and the same lists, as far as one can get. -/
def SameBelow (v v' : JsonView δ) (kids kids' : Addr → List Addr) (a : Addr) : Prop :=
  ∀ b, Below (v.parts kids) a b → v'.contents b = v.contents b ∧ kids' b = kids b

theorem SameBelow.kid (h : SameBelow v v' kids kids' a) {b : Addr} (hb : b ∈ kids a) : SameBelow v v' kids kids' b :=
  fun x hx => h x (.head (mem_parts.mpr (.inr hb)) hx)

theorem Has.congr (hc : v.Has a c) (h : SameBelow v v' kids kids' a) : v'.Has a c :=
  ⟨(h a (.refl a)).1.trans hc.1, hc.2⟩

/-- The texts of a cell are below it. -/
theorem HasText.congr {p : Option Addr} {s : CString} (hp : v.HasText p s) (hc : v.Has a c)
    (hmem : ∀ t, p = some t → t ∈ c.texts) (h : SameBelow v v' kids kids' a) : v'.HasText p s := by
  obtain ⟨t, rfl, ht⟩ := hp
  have hbelow : t ∈ v.parts kids a := mem_parts.mpr (.inl (texts_of_contents hc.1 ▸ hmem t rfl))
  exact ⟨t, rfl, (h t (.head hbelow (.refl t))).1.trans ht⟩

theorem mem_texts_string {t : Addr} (h : c.string = some t) : t ∈ c.texts := by
  simp [JsonCell.texts, h]

theorem mem_texts_valuestring {t : Addr} (hc : v.Has a c) (h : c.valuestring = some t) : t ∈ c.texts := by
  simp [JsonCell.texts, JsonCell.own, hc.2, h]

theorem Shows.has {item : JsonItem δ} (h : v.Shows kids item a) : ∃ c, v.Has a c := by
  cases item <;> exact h.imp fun _ hc => hc.1

mutual
theorem Shows.congr : ∀ {item : JsonItem δ} {a : Addr}, v.Shows kids item a → SameBelow v v' kids kids' a →
    v'.Shows kids' item a
  | .null, _, ⟨c, hc, ht⟩, h | .false, _, ⟨c, hc, ht⟩, h | .true, _, ⟨c, hc, ht⟩, h => ⟨c, hc.congr h, ht⟩
  | .number _, _, ⟨c, hc, ht, hx⟩, h => ⟨c, hc.congr h, ht, hx⟩
  | .string _, _, ⟨c, hc, ht, hs⟩, h => ⟨c, hc.congr h, ht, hs.congr hc (fun _ => mem_texts_valuestring hc) h⟩
  | .array _, a, ⟨c, hc, ht, hs⟩, h => ⟨c, hc.congr h, ht, by
      rw [(h a (.refl a)).2]
      exact hs.congr fun b hb => h.kid hb⟩
  | .object _, a, ⟨c, hc, ht, hs⟩, h => ⟨c, hc.congr h, ht, by
      rw [(h a (.refl a)).2]
      exact hs.congr fun b hb => h.kid hb⟩

theorem ShowsItems.congr : ∀ {items : JsonItems δ} {xs : List Addr}, v.ShowsItems kids items xs →
    (∀ b ∈ xs, SameBelow v v' kids kids' b) → v'.ShowsItems kids' items xs
  | .nil, _, hnil, _ => hnil
  | .cons _ _, _, ⟨a, ys, hxs, hitem, hnext⟩, h => by
    subst hxs
    exact ⟨a, ys, rfl, hitem.congr (h a List.mem_cons_self), hnext.congr fun b hb => h b (List.mem_cons_of_mem a hb)⟩

theorem ShowsMembers.congr : ∀ {members : JsonMembers δ} {xs : List Addr}, v.ShowsMembers kids members xs →
    (∀ b ∈ xs, SameBelow v v' kids kids' b) → v'.ShowsMembers kids' members xs
  | .nil, _, hnil, _ => hnil
  | .cons _ _ _, _, ⟨a, ys, hxs, ⟨c, hc, hname⟩, hitem, hnext⟩, h => by
    subst hxs
    have ha := h a List.mem_cons_self
    exact ⟨a, ys, rfl, ⟨c, hc.congr ha, hname.congr hc (fun _ => mem_texts_string) ha⟩, hitem.congr ha,
      hnext.congr fun b hb => h b (List.mem_cons_of_mem a hb)⟩
end

theorem SameBelow.parts (h : SameBelow v v' kids kids' a) : v'.parts kids' a = v.parts kids a := by
  obtain ⟨hcontents, hkids⟩ := h a (.refl a)
  simp only [JsonView.parts, texts, hcontents, hkids]

theorem SameBelow.below (h : SameBelow v v' kids kids' a) {b : Addr} (hb : Below (v'.parts kids') a b) :
    Below (v.parts kids) a b := by
  induction hb with
  | refl => exact .refl a
  | tail _ hmem ih => exact ih.tail (parts (fun x hx => h x (ih.trans hx)) ▸ hmem)

theorem SameBelow.below' (h : SameBelow v v' kids kids' a) {b : Addr} (hb : Below (v.parts kids) a b) :
    Below (v'.parts kids') a b := by
  induction hb with
  | refl => exact .refl a
  | tail hx hmem ih => exact ih.tail (parts (fun y hy => h y (hx.trans hy)) ▸ hmem)

/-- The name of an item is not read with it. -/
theorem Shows.named {item : JsonItem δ} {c' : JsonCell δ} {p : Option Addr} (h : v.Shows kids item a) (hc : v.Has a c)
    (hc' : v'.Has a c') (heq : c' = { c with string := p }) (hkids : kids' a = kids a)
    (hbelow : ∀ b ∈ v.parts kids a, SameBelow v v' kids kids' b) : v'.Shows kids' item a := by
  have hkid : ∀ b ∈ kids a, SameBelow v v' kids kids' b := fun b hb => hbelow b (mem_parts.mpr (.inr hb))
  have hunique : ∀ {c₁ : JsonCell δ}, v.Has a c₁ → c₁ = c := by
    intro c₁ hc₁
    cases hc₁.1.symm.trans hc.1
    rfl
  subst heq
  cases item with
  | null | false | true =>
    obtain ⟨c₁, hc₁, ht⟩ := h
    cases hunique hc₁
    exact ⟨_, hc', ht⟩
  | number x =>
    obtain ⟨c₁, hc₁, ht, hx⟩ := h
    cases hunique hc₁
    exact ⟨_, hc', ht, hx⟩
  | string s =>
    obtain ⟨c₁, hc₁, ht, t, hp, hs⟩ := h
    cases hunique hc₁
    have hmem : t ∈ v.parts kids a := mem_parts.mpr (.inl (texts_of_contents hc.1 ▸ mem_texts_valuestring hc hp))
    exact ⟨_, hc', ht, t, hp, (hbelow t hmem t (.refl t)).1.trans hs⟩
  | array items =>
    obtain ⟨c₁, hc₁, ht, hs⟩ := h
    cases hunique hc₁
    exact ⟨_, hc', ht, hkids ▸ hs.congr hkid⟩
  | object members =>
    obtain ⟨c₁, hc₁, ht, hs⟩ := h
    cases hunique hc₁
    exact ⟨_, hc', ht, hkids ▸ hs.congr hkid⟩

theorem ShowsMembers.concat {members : JsonMembers δ} {xs : List Addr} {name : CString} {item : JsonItem δ}
    (h : v.ShowsMembers kids members xs) (hname : ∃ c, v.Has a c ∧ v.HasText c.string name)
    (hitem : v.Shows kids item a) : v.ShowsMembers kids (members.concat name item) (xs ++ [a]) := by
  match members, h with
  | .nil, hnil =>
    cases (hnil : xs = [])
    exact ⟨a, [], rfl, hname, hitem, rfl⟩
  | .cons _ _ _, ⟨b, ys, hxs, hb, hshows, hnext⟩ =>
    subst hxs
    exact ⟨b, ys ++ [a], rfl, hb, hshows, hnext.concat hname hitem⟩

end JsonView

/-! ## Readers -/

section
variable {h : JsonHeap δ} {kids : Addr → List Addr} {a : Addr} {p : Option Addr} {c : JsonCell δ}

open JsonView

theorem JsonView.HasText.textAt {s : CString} (h' : h.view.HasText p s) : h.textAt p = some s := by
  obtain ⟨t, rfl, ht⟩ := h'
  simp [JsonHeap.textAt, JsonHeap.contents_text.mp ht]

/-- The cell itself. -/
theorem JsonView.Has.cell (hc : h.view.Has a c) : ∃ c', h.cell a = some c' ∧ c'.core = c ∧ c'.next = h.view.next a ∧
    c'.child = h.view.first a := by
  obtain ⟨c', hcell, hcore, hnext, -, hchild⟩ := h.cell_of_contents hc.1
  exact ⟨c', hcell, hcore, hnext, hchild⟩

mutual
theorem JsonView.Shows.reads (ht : h.view.Tidy kids) : ∀ {item : JsonItem δ} {a : Addr}, h.view.Shows kids item a →
    Ends (fun fuel => readItem fuel h a) item
  | .null, _, ⟨_, hc, htype⟩ | .false, _, ⟨_, hc, htype⟩ | .true, _, ⟨_, hc, htype⟩ => by
    obtain ⟨c', hcell, rfl, -⟩ := hc.cell
    have htype' : c'.type = _ := htype
    exact .succ (.of_forall fun _ => rfl) fun fuel => by simp [readItem, hcell, htype']
  | .number x, _, ⟨_, hc, htype, hx⟩ => by
    obtain ⟨c', hcell, rfl, -⟩ := hc.cell
    have htype' : c'.type = _ := htype
    have hx' : c'.valuedouble = x := hx
    exact .succ (.of_forall fun _ => rfl) fun fuel => by simp [readItem, hcell, htype', hx']
  | .string s, _, ⟨_, hc, htype, hs⟩ => by
    obtain ⟨c', hcell, rfl, -⟩ := hc.cell
    have htype' : c'.type = _ := htype
    have hs' : h.textAt c'.valuestring = some s := hs.textAt
    exact .succ (.of_forall fun _ => rfl) fun fuel => by simp [readItem, hcell, htype', hs']
  | .array items, a, ⟨c, hc, htype, hs⟩ => by
    obtain ⟨c', hcell, rfl, -, hchild⟩ := hc.cell
    have htype' : c'.type = _ := htype
    rw [ht.first a ⟨_, hc⟩] at hchild
    refine .succ ((hs.reads ht (ht.linked a)).map JsonItem.array) fun fuel => ?_
    simp [readItem, hcell, htype', hchild]
  | .object members, a, ⟨c, hc, htype, hs⟩ => by
    obtain ⟨c', hcell, rfl, -, hchild⟩ := hc.cell
    have htype' : c'.type = _ := htype
    rw [ht.first a ⟨_, hc⟩] at hchild
    refine .succ ((hs.reads ht (ht.linked a)).map JsonItem.object) fun fuel => ?_
    simp [readItem, hcell, htype', hchild]

theorem JsonView.ShowsItems.reads (ht : h.view.Tidy kids) : ∀ {items : JsonItems δ} {xs : List Addr} {p : Option Addr},
    h.view.ShowsItems kids items xs → Seg h.view.toLinks p xs none → Ends (fun fuel => readItems fuel h xs.head?) items
  | .nil, _, _, hnil, _ => by
    cases (hnil : _ = [])
    exact .of_forall fun fuel => by cases fuel <;> rfl
  | .cons item next, _, _, ⟨a, ys, hxs, hitem, hnext⟩, hseg => by
    subst hxs
    obtain ⟨-, hlink, hseg⟩ := hseg
    obtain ⟨c, hc⟩ := hitem.has
    obtain ⟨c', hcell, -, hnext', -⟩ := hc.cell
    rw [hlink, Option.or_none] at hnext'
    refine .succ ((hitem.reads ht).bind (g := fun fuel item => (readItems fuel h ys.head?).map (.cons item))
      ((hnext.reads ht hseg).map (JsonItems.cons item))) fun fuel => ?_
    simp only [List.head?_cons, readItems, hcell, hnext', Option.bind_eq_bind, Option.bind_some, Option.map_eq_bind]
    rfl

theorem JsonView.ShowsMembers.reads (ht : h.view.Tidy kids) : ∀ {members : JsonMembers δ} {xs : List Addr}
    {p : Option Addr}, h.view.ShowsMembers kids members xs → Seg h.view.toLinks p xs none →
    Ends (fun fuel => readMembers fuel h xs.head?) members
  | .nil, _, _, hnil, _ => by
    cases (hnil : _ = [])
    exact .of_forall fun fuel => by cases fuel <;> rfl
  | .cons name item next, _, _, ⟨a, ys, hxs, ⟨c, hc, hname⟩, hitem, hnext⟩, hseg => by
    subst hxs
    obtain ⟨-, hlink, hseg⟩ := hseg
    obtain ⟨c', hcell, rfl, hnext', -⟩ := hc.cell
    rw [hlink, Option.or_none] at hnext'
    have hname' : h.textAt c'.string = some name := hname.textAt
    refine .succ ((hitem.reads ht).bind (g := fun fuel item => (readMembers fuel h ys.head?).map (.cons name item))
      ((hnext.reads ht hseg).map (JsonMembers.cons name item))) fun fuel => ?_
    simp only [List.head?_cons, readMembers, hcell, hname', hnext', Option.bind_eq_bind, Option.bind_some,
      Option.map_eq_bind]
    rfl
end

end

end PostfixEdm
