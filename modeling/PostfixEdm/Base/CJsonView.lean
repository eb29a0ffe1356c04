import PostfixEdm.Base.CJsonHeap

/-!
# Stores to `cJSON` items

* `JsonView` : a heap as its links, its first children, and what else is in the cells;
* `JsonHeap.write_view`, `JsonHeap.setNext_view`, `JsonHeap.setFirst_view` and the others : what a store changes;
* `JsonHeap.createItem_view`, `JsonHeap.setString_view` and the others : what the constructors change.
-/

namespace PostfixEdm

open Linked

variable {δ : Type}

/-! ## Views -/

/-- A cell without the pointers to other cells. -/
def JsonCell.core (c : JsonCell δ) : JsonCell δ := { c with next := none, prev := none, child := none }

/-- The texts that `cJSON_Delete` frees with a cell. -/
def JsonCell.texts (c : JsonCell δ) : List Addr := c.string.toList ++ (c.own c.valuestring).toList

def JsonBlock.core : JsonBlock δ → JsonBlock δ
  | .cell c => .cell c.core
  | .text s => .text s

@[ext] structure JsonView (δ : Type) extends Links Addr where
  first : Addr → Option Addr
  contents : Addr → Option (JsonBlock δ)

namespace JsonHeap

variable {h h' : JsonHeap δ} {a b : Addr} {c : JsonCell δ} {p q : Option Addr}

def view (h : JsonHeap δ) : JsonView δ where
  next a := (h.cell a).bind (·.next)
  prev a := (h.cell a).bind (·.prev)
  first a := (h.cell a).bind (·.child)
  contents a := (h.blocks a).map JsonBlock.core

@[simp] theorem blocks_set_self (h : JsonHeap δ) (a : Addr) (block : Option (JsonBlock δ)) :
    (h.set a block).blocks a = block := Function.update_self ..

theorem blocks_set_of_ne (h : JsonHeap δ) (block : Option (JsonBlock δ)) (hne : b ≠ a) :
    (h.set a block).blocks b = h.blocks b := Function.update_of_ne hne ..

theorem cell_of_blocks (hc : h.blocks a = some (.cell c)) : h.cell a = some c := by
  simp [cell, hc]

theorem blocks_of_cell (hc : h.cell a = some c) : h.blocks a = some (.cell c) := by
  unfold cell at hc
  split at hc
  · next heq => rw [heq, Option.some.inj hc]
  · cases hc

@[simp] theorem cell_set_self (h : JsonHeap δ) (a : Addr) (c : JsonCell δ) :
    (h.set a (some (.cell c))).cell a = some c := by
  simp [cell]

theorem cell_set_of_ne (h : JsonHeap δ) (block : Option (JsonBlock δ)) (hne : b ≠ a) :
    (h.set a block).cell b = h.cell b := by
  simp [cell, blocks_set_of_ne h block hne]

theorem view_set_cell (h : JsonHeap δ) (a : Addr) (c : JsonCell δ) :
    (h.set a (some (.cell c))).view =
      { next := Function.update h.view.next a c.next, prev := Function.update h.view.prev a c.prev
        first := Function.update h.view.first a c.child
        contents := Function.update h.view.contents a (some (.cell c.core)) } := by
  ext1
  all_goals
    funext b
    by_cases hb : b = a
    · subst hb
      simp [view, JsonBlock.core]
    · simp [view, cell_set_of_ne h _ hb, blocks_set_of_ne h _ hb, hb]

/-- A block that is not a cell, or none, where no cell was. -/
theorem view_set_of_cell_eq_none (hcell : h.cell a = none) {block : Option (JsonBlock δ)}
    (hblock : ∀ c, block ≠ some (.cell c)) :
    (h.set a block).view =
      { h.view with contents := Function.update h.view.contents a (block.map JsonBlock.core) } := by
  have hset : (h.set a block).cell = h.cell := by
    funext b
    by_cases hb : b = a
    · subst hb
      rw [hcell]
      unfold cell
      split
      · next c heq => exact absurd (by rw [← heq, blocks_set_self]) (hblock c)
      · rfl
    · exact cell_set_of_ne h block hb
  ext1
  case contents =>
    ext b : 1
    by_cases hb : b = a
    · subst hb
      simp [view]
    · simp [view, blocks_set_of_ne h _ hb, hb]
  all_goals simp [view, hset]

/-- A cell that the view has. -/
theorem cell_of_contents (hc : h.view.contents a = some (.cell c)) :
    ∃ c', h.cell a = some c' ∧ c'.core = c ∧ c'.next = h.view.next a ∧ c'.prev = h.view.prev a ∧
      c'.child = h.view.first a := by
  obtain ⟨block, hblock, heq⟩ := Option.map_eq_some_iff.mp hc
  cases block with
  | cell c' =>
    have hcell := cell_of_blocks hblock
    exact ⟨c', hcell, JsonBlock.cell.inj heq, by simp [view, hcell], by simp [view, hcell], by simp [view, hcell]⟩
  | text s => cases heq

theorem contents_cell_core (hc : h.view.contents a = some (.cell c)) : c.core = c := by
  obtain ⟨c', -, rfl, -⟩ := cell_of_contents hc
  rfl

theorem contents_of_cell (hc : h.cell a = some c) : h.view.contents a = some (.cell c.core) := by
  simp [view, blocks_of_cell hc, JsonBlock.core]

theorem contents_text {s : CString} : h.view.contents a = some (.text s) ↔ h.blocks a = some (.text s) := by
  constructor
  · intro hs
    obtain ⟨block, hblock, heq⟩ := Option.map_eq_some_iff.mp hs
    cases block with
    | cell c => cases heq
    | text s' => rw [hblock, JsonBlock.text.inj heq]
  · intro hs
    simp [view, hs, JsonBlock.core]

theorem contents_eq_none : h.view.contents a = none ↔ h.blocks a = none := Option.map_eq_none_iff

/-! ## Stores -/

theorem write_view (hc : h.view.contents a = some (.cell c)) (f : JsonCell δ → JsonCell δ) :
    ∃ c' h', c'.core = c ∧ c'.next = h.view.next a ∧ c'.prev = h.view.prev a ∧ c'.child = h.view.first a ∧
      h.write a f = some h' ∧
      h'.view =
        { next := Function.update h.view.next a (f c').next, prev := Function.update h.view.prev a (f c').prev
          first := Function.update h.view.first a (f c').child
          contents := Function.update h.view.contents a (some (.cell (f c').core)) } := by
  obtain ⟨c', hcell, hcore, hnext, hprev, hchild⟩ := cell_of_contents hc
  refine ⟨c', _, hcore, hnext, hprev, hchild, ?_, view_set_cell h a (f c')⟩
  simp [write, hcell]

/-- A store that leaves the pointers to other cells alone. -/
theorem write_contents (hc : h.view.contents a = some (.cell c)) {f : JsonCell δ → JsonCell δ}
    (hnext : ∀ c, (f c).next = c.next) (hprev : ∀ c, (f c).prev = c.prev) (hchild : ∀ c, (f c).child = c.child)
    (hcore : ∀ c, (f c).core = (f c.core).core) :
    ∃ h', h.write a f = some h' ∧
      h'.view = { h.view with contents := Function.update h.view.contents a (some (.cell (f c).core)) } := by
  obtain ⟨c', h', hcore', hnext', hprev', hchild', hwrite, hview⟩ := write_view hc f
  refine ⟨h', hwrite, ?_⟩
  have heq : (f c').core = (f c).core := by rw [hcore c', hcore', ← contents_cell_core hc, ← hcore']
  rw [hview, hnext, hprev, hchild, hnext', hprev', hchild', heq]
  simp

theorem setNext_view (hp : ∀ a, p = some a → ∃ c, h.view.contents a = some (.cell c)) (q : Option Addr) :
    ∃ h', h.setNext p q = some h' ∧ h'.view = { h.view with toLinks := h.view.toLinks.setNext p q } := by
  cases p with
  | none => exact ⟨h, rfl, by simp [Links.setNext]⟩
  | some a =>
    obtain ⟨c, hc⟩ := hp a rfl
    obtain ⟨c', h', hcore, -, hprev, hchild, hwrite, hview⟩ := write_view hc fun c => { c with next := q }
    refine ⟨h', hwrite, ?_⟩
    have heq : ({ c' with next := q } : JsonCell δ).core = c := hcore
    rw [hview, heq, ← hc]
    simp only [hprev, hchild, Function.update_eq_self]
    congr
    funext x
    simp [Function.update_apply, eq_comm]

theorem setPrev_view (hq : ∀ b, q = some b → ∃ c, h.view.contents b = some (.cell c)) (p : Option Addr) :
    ∃ h', h.setPrev q p = some h' ∧ h'.view = { h.view with toLinks := h.view.toLinks.setPrev q p } := by
  cases q with
  | none => exact ⟨h, rfl, by simp [Links.setPrev]⟩
  | some b =>
    obtain ⟨c, hc⟩ := hq b rfl
    obtain ⟨c', h', hcore, hnext, -, hchild, hwrite, hview⟩ := write_view hc fun c => { c with prev := p }
    refine ⟨h', hwrite, ?_⟩
    have heq : ({ c' with prev := p } : JsonCell δ).core = c := hcore
    rw [hview, heq, ← hc]
    simp only [hnext, hchild, Function.update_eq_self]
    congr
    funext x
    simp [Function.update_apply, eq_comm]

theorem setChild_view (hc : h.view.contents a = some (.cell c)) (p : Option Addr) :
    ∃ h', (h.write a fun c => { c with child := p }) = some h' ∧
      h'.view = { h.view with first := Function.update h.view.first a p } := by
  obtain ⟨c', h', hcore, hnext, hprev, -, hwrite, hview⟩ := write_view hc fun c => { c with child := p }
  refine ⟨h', hwrite, ?_⟩
  have heq : ({ c' with child := p } : JsonCell δ).core = c := hcore
  rw [hview, heq, ← hc]
  simp [hnext, hprev]

theorem clear_view (hc : h.view.contents a = some (.cell c)) :
    ∃ h', (h.write a fun c => { c with next := none, prev := none }) = some h' ∧
      h'.view = { h.view with toLinks := h.view.toLinks.clear a } := by
  obtain ⟨c', h', hcore, -, -, hchild, hwrite, hview⟩ := write_view hc fun c => { c with next := none, prev := none }
  refine ⟨h', hwrite, ?_⟩
  have heq : ({ c' with next := none, prev := none } : JsonCell δ).core = c := hcore
  rw [hview, heq, ← hc]
  simp [hchild, Links.clear]

theorem setFirst_view (ha : ∃ c, h.view.contents a = some (.cell c)) {otherwise : Option (JsonHeap δ)}
    (hne : h.view.first a ≠ some b → otherwise = some h) (q : Option Addr) :
    ∃ h', h.setFirst a b q otherwise = some h' ∧
      h'.view =
        { h.view with
          first := Function.update h.view.first a (if h.view.first a = some b then q else h.view.first a) } := by
  obtain ⟨c, hc⟩ := ha
  obtain ⟨c', hcell, -, -, -, hchild⟩ := cell_of_contents hc
  by_cases hb : h.view.first a = some b
  · obtain ⟨h', hwrite, hview⟩ := setChild_view hc q
    refine ⟨h', ?_, by rw [hview, if_pos hb]⟩
    simp [setFirst, hcell, hchild, hb, hwrite]
  · refine ⟨h, ?_, by rw [if_neg hb, Function.update_eq_self]⟩
    simp [setFirst, hcell, hchild, hb, hne hb]

/-! ## New blocks, and free ones -/

variable (malloc : Malloc δ)

/-- No pointer leads out of what is not there. -/
theorem update_fresh (h : JsonHeap δ) (f : JsonCell δ → Option Addr) :
    Function.update (fun a => (h.cell a).bind f) (malloc.addr h) none = fun a => (h.cell a).bind f := by
  refine Function.update_eq_self_iff.mpr ?_
  simp [cell, malloc.fresh h]

theorem newItem_view (zero : δ) (h : JsonHeap δ) :
    (newItem malloc zero h).2.view =
      { h.view with contents := Function.update h.view.contents (malloc.addr h) (some (.cell (zeroCell zero))) } := by
  show (h.set (malloc.addr h) (some (.cell (zeroCell zero)))).view = _
  rw [view_set_cell]
  ext1
  · exact update_fresh malloc h _
  · exact update_fresh malloc h _
  · exact update_fresh malloc h _
  · rfl

theorem cJsonStrdup_view (s : CString) (h : JsonHeap δ) :
    (cJsonStrdup malloc s h).2.view =
      { h.view with contents := Function.update h.view.contents (malloc.addr h) (some (.text s)) } :=
  view_set_of_cell_eq_none (by simp [cell, malloc.fresh h]) fun c heq => by cases heq

theorem contents_fresh (h : JsonHeap δ) : h.view.contents (malloc.addr h) = none :=
  contents_eq_none.mpr (malloc.fresh h)

/-- The blocks without one. -/
def without (contents : Addr → Option (JsonBlock δ)) (p : Option Addr) : Addr → Option (JsonBlock δ) :=
  fun a => if p = some a then none else contents a

@[simp] theorem without_none (contents : Addr → Option (JsonBlock δ)) : without contents none = contents := by
  funext a
  simp [without]

theorem without_some (contents : Addr → Option (JsonBlock δ)) :
    without contents (some a) = Function.update contents a none := by
  funext b
  simp [without, Function.update_apply, eq_comm]

theorem freeOpt_view (hp : ∀ a, p = some a → ∃ s, h.view.contents a = some (.text s)) :
    ∃ h', h.freeOpt p = some h' ∧ h'.view = { h.view with contents := without h.view.contents p } := by
  cases p with
  | none => exact ⟨h, rfl, by rw [without_none]⟩
  | some a =>
    obtain ⟨s, hs⟩ := hp a rfl
    have hblock := contents_text.mp hs
    refine ⟨h.set a none, by simp [freeOpt, free, hblock], ?_⟩
    rw [without_some]
    exact view_set_of_cell_eq_none (by simp [cell, hblock]) fun c heq => by cases heq

theorem textAt_some {s : CString} : h.textAt (some a) = some s ↔ h.view.contents a = some (.text s) := by
  rw [contents_text, textAt, Option.bind_some]
  cases h.blocks a with
  | none => simp
  | some block => cases block <;> simp

/-- A name for an item: it can be read, and it is not the string of the item, which is freed before that. -/
structure Names (h : JsonHeap δ) (string : CharPtr) (item : Addr) (name : CString) : Prop where
  read : h.read string = some name
  apart : ∀ b c, string = .block b → h.cell item = some c → c.string ≠ some b

theorem names_outside (h : JsonHeap δ) (item : Addr) (name : CString) : h.Names (.outside name) item name where
  read := rfl
  apart := fun _ _ heq => by cases heq

/-- A name is still there when the string of the item is freed. -/
theorem Names.read_without {string : CharPtr} {name : CString} (hnames : h.Names string a name)
    (hc : h.cell a = some c) (hview : h'.view.contents = without h.view.contents c.string) :
    h'.read string = some name := by
  cases string with
  | outside s => exact hnames.read
  | block b =>
    have hb : h.view.contents b = some (.text name) := textAt_some.mp hnames.read
    refine textAt_some.mpr ?_
    rw [hview, without, if_neg (hnames.apart b c rfl hc), hb]

theorem setString_view (hc : h.view.contents a = some (.cell c))
    (hstring : ∀ b, c.string = some b → ∃ s, h.view.contents b = some (.text s)) {string : CharPtr} {name : CString}
    (hnames : h.Names string a name) :
    ∃ h' t, setString malloc a string h = some h' ∧ without h.view.contents c.string t = none ∧
      h'.view =
        { h.view with
          contents := Function.update (Function.update (without h.view.contents c.string) t (some (.text name))) a
            (some (.cell { c with string := some t })) } := by
  obtain ⟨c', hcell, hcore, -⟩ := cell_of_contents hc
  have hold : c'.string = c.string := (congrArg JsonCell.string hcore : c'.core.string = c.string)
  obtain ⟨h1, hfree, hview1⟩ := freeOpt_view hstring
  have hread : h1.read string = some name := hnames.read_without hcell (by rw [hview1, hold])
  have hne : c.string ≠ some a := by
    intro heq
    obtain ⟨s, hs⟩ := hstring a heq
    rw [hc] at hs
    cases hs
  have ht : without h.view.contents c.string (malloc.addr h1) = none := by
    have hfresh := contents_fresh malloc h1
    rwa [hview1] at hfresh
  have hc1 : without h.view.contents c.string a = some (.cell c) := by rw [without, if_neg hne, hc]
  have hat : a ≠ malloc.addr h1 := by
    intro heq
    rw [← heq, hc1] at ht
    cases ht
  obtain ⟨h2, hwrite, hview2⟩ := write_contents (h := (cJsonStrdup malloc name h1).2) (a := a) (c := c)
    (f := fun c => { c with string := some (malloc.addr h1) })
    (by
      rw [cJsonStrdup_view, hview1]
      exact (Function.update_of_ne hat ..).trans hc1)
    (fun _ => rfl) (fun _ => rfl) (fun _ => rfl) fun _ => rfl
  refine ⟨h2, malloc.addr h1, ?_, ht, ?_⟩
  · simp only [setString, hcell, Option.bind_eq_bind, Option.bind_some, hold, hfree]
    simp only [hread, Option.bind_some]
    exact hwrite
  · have hcore' : ({ c with string := some (malloc.addr h1) } : JsonCell δ).core =
        { c with string := some (malloc.addr h1) } := by
      rw [← contents_cell_core hc]
      rfl
    rw [hview2, hcore', cJsonStrdup_view, hview1]

/-- A name that is the string of the item is read after it has been freed. -/
theorem setString_own {t : Addr} (hc : h.cell a = some c) (hstring : c.string = some t) :
    setString malloc a (.block t) h = none := by
  have hread : (h.set t none).read (.block t) = none := by simp [read, textAt]
  simp only [setString, hc, Option.bind_eq_bind, Option.bind_some, hstring, freeOpt, free]
  split
  · rw [Option.bind_some, hread, Option.bind_none]
  · rfl

/-! ## Constructors -/

variable (zero : δ)

/-- A store to a new item. -/
theorem write_new {f : JsonCell δ → JsonCell δ} (hview : h'.view =
      { h.view with contents := Function.update h.view.contents a (some (.cell c)) })
    (hnext : ∀ c, (f c).next = c.next) (hprev : ∀ c, (f c).prev = c.prev) (hchild : ∀ c, (f c).child = c.child)
    (hcore : ∀ c, (f c).core = (f c.core).core) :
    ∃ h'', h'.write a f = some h'' ∧
      h''.view = { h.view with contents := Function.update h.view.contents a (some (.cell (f c).core)) } := by
  obtain ⟨h'', hwrite, hview'⟩ := write_contents (h := h') (a := a) (c := c)
    (by
      rw [hview]
      exact Function.update_self ..)
    hnext hprev hchild hcore
  refine ⟨h'', hwrite, ?_⟩
  rw [hview', hview]
  simp

theorem createItem_view (type : JsonType) (h : JsonHeap δ) :
    ∃ h', createItem malloc zero type h = some (malloc.addr h, h') ∧
      h'.view =
        { h.view with
          contents :=
            Function.update h.view.contents (malloc.addr h) (some (.cell { zeroCell zero with type := type })) } := by
  obtain ⟨h1, hwrite, hview⟩ := write_new (newItem_view malloc zero h) (f := fun c => { c with type := type })
    (fun _ => rfl) (fun _ => rfl) (fun _ => rfl) fun _ => rfl
  refine ⟨h1, ?_, hview⟩
  have hwrite' : (newItem malloc zero h).2.write (malloc.addr h) _ = some h1 := hwrite
  simp only [createItem, newItem] at hwrite' ⊢
  rw [Option.bind_eq_bind, hwrite', Option.bind_some]

theorem createNumber_view (num : δ) (h : JsonHeap δ) :
    ∃ h', createNumber malloc zero num h = some (malloc.addr h, h') ∧
      h'.view =
        { h.view with
          contents := Function.update h.view.contents (malloc.addr h)
            (some (.cell { zeroCell zero with type := .number, valuedouble := num })) } := by
  obtain ⟨h1, hwrite, hview⟩ := write_new (newItem_view malloc zero h) (f := fun c => { c with type := .number })
    (fun _ => rfl) (fun _ => rfl) (fun _ => rfl) fun _ => rfl
  obtain ⟨h2, hwrite2, hview2⟩ := write_new hview (f := fun c => { c with valuedouble := num })
    (fun _ => rfl) (fun _ => rfl) (fun _ => rfl) fun _ => rfl
  refine ⟨h2, ?_, hview2⟩
  simp only [createNumber, newItem] at hwrite ⊢
  rw [Option.bind_eq_bind, hwrite, Option.bind_some, hwrite2, Option.bind_some]

theorem createString_view (string : CString) (h : JsonHeap δ) :
    ∃ h' t, createString malloc zero string h = some (malloc.addr h, h') ∧ t ≠ malloc.addr h ∧
      h.view.contents t = none ∧
      h'.view =
        { h.view with
          contents := Function.update (Function.update h.view.contents t (some (.text string))) (malloc.addr h)
            (some (.cell { zeroCell zero with type := .string, valuestring := some t })) } := by
  obtain ⟨h1, hwrite, hview⟩ := write_new (newItem_view malloc zero h) (f := fun c => { c with type := .string })
    (fun _ => rfl) (fun _ => rfl) (fun _ => rfl) fun _ => rfl
  have hfresh := contents_fresh malloc h1
  rw [hview] at hfresh
  have hne : malloc.addr h1 ≠ malloc.addr h := by
    intro heq
    rw [heq] at hfresh
    cases (Function.update_self ..).symm.trans hfresh
  have hnone : h.view.contents (malloc.addr h1) = none := (Function.update_of_ne hne ..).symm.trans hfresh
  obtain ⟨h2, hwrite2, hview2⟩ := write_contents (h := (cJsonStrdup malloc string h1).2) (a := malloc.addr h)
    (f := fun c => { c with valuestring := some (malloc.addr h1) })
    (by
      rw [cJsonStrdup_view, hview]
      exact (Function.update_of_ne hne.symm ..).trans (Function.update_self ..))
    (fun _ => rfl) (fun _ => rfl) (fun _ => rfl) fun _ => rfl
  refine ⟨h2, malloc.addr h1, ?_, hne, hnone, ?_⟩
  · simp only [createString, newItem] at hwrite ⊢
    rw [Option.bind_eq_bind, hwrite, Option.bind_some]
    exact congrArg (fun m => m.bind fun h' => some (malloc.addr h, h')) hwrite2
  · rw [hview2, cJsonStrdup_view, hview]
    simp only [Function.update_comm hne.symm, Function.update_idem]
    rfl

theorem createReference_view (hc : h.view.contents a = some (.cell c)) :
    ∃ h', createReference malloc zero a h = some (malloc.addr h, h') ∧
      h'.view =
        { h.view with
          first := Function.update h.view.first (malloc.addr h) (h.view.first a)
          contents := Function.update h.view.contents (malloc.addr h)
            (some (.cell { c with string := none, isReference := true })) } := by
  obtain ⟨c', hcell, hcore, -, -, hchild⟩ := cell_of_contents hc
  have hne : a ≠ malloc.addr h := by
    intro heq
    rw [heq, contents_fresh] at hc
    cases hc
  have hread : (newItem malloc zero h).2.cell a = some c' := (cell_set_of_ne h _ hne).trans hcell
  obtain ⟨c1, h1, hcore1, hnext1, hprev1, -, hwrite, hview⟩ := write_view (h := (newItem malloc zero h).2)
    (a := malloc.addr h) (c := zeroCell zero)
    (by
      rw [newItem_view]
      exact Function.update_self ..)
    fun _ => { c' with string := none, isReference := true, next := none, prev := none }
  refine ⟨h1, ?_, ?_⟩
  · simp only [createReference, newItem] at hread hwrite ⊢
    rw [Option.bind_eq_bind, hread, Option.bind_some, hwrite]
    rfl
  · have hcore' : ({ c' with string := none, isReference := true, next := none, prev := none } : JsonCell δ).core =
        { c with string := none, isReference := true } := by
      rw [← hcore]
      rfl
    have hnext : Function.update h.view.next (malloc.addr h) none = h.view.next := update_fresh malloc h _
    have hprev : Function.update h.view.prev (malloc.addr h) none = h.view.prev := update_fresh malloc h _
    rw [hview, newItem_view, hcore', hchild]
    simp only [Function.update_idem, hnext, hprev]

end JsonHeap

end PostfixEdm
