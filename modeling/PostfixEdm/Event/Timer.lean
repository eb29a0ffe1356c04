import Mathlib.Data.List.Nodup

/-!
# The timers of `CEventDispatch`

* `TimerItem`, `TimerList` : an entry of `m_timer_list`, and the list: one entry for each pair of callback and user
  data, and no node that is used twice;
* `TimerList.addTimer`, `TimerList.removeTimer`, `TimerOp` : what a callback can do to it;
* `items_run`, `TimerList.nodeIds_run` : what a sequence of operations makes of the entries, and of their nodes.
-/

namespace PostfixEdm

/-- An entry of `m_timer_list`. `id` tells its node from all others that ever were in the list, and `key` is
`callback` with `user_data`. -/
structure TimerItem (κ : Type) where
  id : Nat
  key : κ
  interval : UInt64
  nextTick : UInt64
  deriving DecidableEq, Repr

namespace TimerItem

/-- `pItem->next_tick += pItem->interval` -/
def advance {κ : Type} (x : TimerItem κ) : TimerItem κ := { x with nextTick := x.nextTick + x.interval }

@[simp] theorem advance_id {κ : Type} (x : TimerItem κ) : x.advance.id = x.id := rfl

@[simp] theorem advance_key {κ : Type} (x : TimerItem κ) : x.advance.key = x.key := rfl

end TimerItem

/-- `m_timer_list`. The node of a new entry is `nodes`, so no node is used twice. -/
structure TimerList (κ : Type) where
  items : List (TimerItem κ)
  nodes : Nat
  keys : (items.map TimerItem.key).Nodup
  ids : (items.map TimerItem.id).Nodup
  old : ∀ x ∈ items, x.id < nodes

namespace TimerList

variable {κ : Type}

def empty : TimerList κ := ⟨[], 0, List.nodup_nil, List.nodup_nil, fun _ hx => absurd hx List.not_mem_nil⟩

/-- `TimerItem.advance`, for the entry of the node. -/
def advance (id : Nat) (t : TimerList κ) : TimerList κ where
  items := t.items.map fun x => if x.id = id then x.advance else x
  nodes := t.nodes
  keys := by
    rw [List.map_map, List.map_congr_left (g := TimerItem.key) fun x _ => by
      rw [Function.comp_apply, apply_ite TimerItem.key, TimerItem.advance_key, ite_self]]
    exact t.keys
  ids := by
    rw [List.map_map, List.map_congr_left (g := TimerItem.id) fun x _ => by
      rw [Function.comp_apply, apply_ite TimerItem.id, TimerItem.advance_id, ite_self]]
    exact t.ids
  old := by
    intro y hy
    obtain ⟨x, hx, rfl⟩ := List.mem_map.mp hy
    rw [apply_ite TimerItem.id, TimerItem.advance_id, ite_self]
    exact t.old x hx

def find (id : Nat) (t : TimerList κ) : Option (TimerItem κ) := t.items.find? fun x => x.id = id

def nodeIds (t : TimerList κ) : List Nat := t.items.map TimerItem.id

section
variable {t : TimerList κ} {id : Nat} {x y : TimerItem κ}

theorem eq_of_id (hx : x ∈ t.items) (hy : y ∈ t.items) (h : x.id = y.id) : x = y :=
  List.inj_on_of_nodup_map t.ids hx hy h

theorem eq_of_key (hx : x ∈ t.items) (hy : y ∈ t.items) (h : x.key = y.key) : x = y :=
  List.inj_on_of_nodup_map t.keys hx hy h

theorem find_eq_some : t.find id = some x ↔ x ∈ t.items ∧ x.id = id := by
  constructor
  · intro h
    exact ⟨List.mem_of_find?_eq_some h, by simpa using List.find?_some h⟩
  · rintro ⟨hx, rfl⟩
    have hsome : (t.find x.id).isSome = true := List.find?_isSome.mpr ⟨x, hx, decide_eq_true rfl⟩
    obtain ⟨y, hy⟩ := Option.isSome_iff_exists.mp hsome
    rw [hy, eq_of_id (List.mem_of_find?_eq_some hy) hx (by simpa using List.find?_some hy)]

theorem exists_find (h : id ∈ t.nodeIds) : ∃ x, t.find id = some x := by
  obtain ⟨x, hx, hid⟩ := List.mem_map.mp h
  exact ⟨x, find_eq_some.mpr ⟨hx, hid⟩⟩

theorem mem_nodeIds (h : t.find id = some x) : id ∈ t.nodeIds := by
  obtain ⟨hx, rfl⟩ := find_eq_some.mp h
  exact List.mem_map_of_mem hx

@[simp] theorem nodeIds_advance : (t.advance id).nodeIds = t.nodeIds := by
  rw [nodeIds, advance, List.map_map]
  refine List.map_congr_left fun x _ => ?_
  rw [Function.comp_apply]
  split <;> rfl

theorem mem_advance (hx : x ∈ t.items) (h : x.id ≠ id) : x ∈ (t.advance id).items :=
  List.mem_map.mpr ⟨x, hx, if_neg h⟩

theorem advance_mem (hx : x ∈ t.items) : x.advance ∈ (t.advance x.id).items :=
  List.mem_map.mpr ⟨x, hx, if_pos rfl⟩

end

end TimerList

section
variable {κ : Type} [DecidableEq κ]

namespace TimerItem

def addTimer (new : TimerItem κ) : List (TimerItem κ) → List (TimerItem κ)
  | [] => [new]
  | x :: rest =>
    if x.key = new.key then { x with interval := new.interval, nextTick := new.nextTick } :: rest
    else x :: addTimer new rest

def removeTimer (key : κ) : List (TimerItem κ) → List (TimerItem κ)
  | [] => []
  | x :: rest => if x.key = key then rest else x :: removeTimer key rest

/-! ## The two searches -/

theorem removeTimer_eq {items : List (TimerItem κ)} (h : (items.map key).Nodup) (k : κ) :
    removeTimer k items = items.filter (fun x => x.key ≠ k) := by
  induction items with
  | nil => rfl
  | cons x rest ih =>
    rw [List.map_cons, List.nodup_cons] at h
    by_cases hx : x.key = k
    · have hrest : rest.filter (fun y => y.key ≠ k) = rest := by
        refine List.filter_eq_self.mpr fun y hy => decide_eq_true ?_
        rintro rfl
        exact h.1 (hx ▸ List.mem_map_of_mem hy)
      rw [removeTimer, if_pos hx, List.filter_cons_of_neg (by simpa using hx), hrest]
    · rw [removeTimer, if_neg hx, List.filter_cons_of_pos (by simpa using hx), ih h.2]

theorem addTimer_of_notMem {new : TimerItem κ} {items : List (TimerItem κ)} (h : new.key ∉ items.map key) :
    addTimer new items = items ++ [new] := by
  induction items with
  | nil => rfl
  | cons x rest ih =>
    rw [List.map_cons, List.mem_cons, not_or] at h
    rw [addTimer, if_neg (Ne.symm h.1), ih h.2, List.cons_append]

theorem addTimer_of_mem {new : TimerItem κ} {items : List (TimerItem κ)} (h : (items.map key).Nodup)
    (hmem : new.key ∈ items.map key) :
    addTimer new items = items.map fun x =>
      if x.key = new.key then { x with interval := new.interval, nextTick := new.nextTick } else x := by
  induction items with
  | nil => exact absurd hmem List.not_mem_nil
  | cons x rest ih =>
    rw [List.map_cons, List.nodup_cons] at h
    by_cases hx : x.key = new.key
    · have hrest : ∀ y ∈ rest, (if y.key = new.key then
          { y with interval := new.interval, nextTick := new.nextTick } else y) = y := by
        intro y hy
        refine if_neg fun hkey => h.1 ?_
        rw [hx, ← hkey]
        exact List.mem_map_of_mem hy
      rw [addTimer, if_pos hx, List.map_cons, if_pos hx, List.map_congr_left hrest, List.map_id']
    · rw [List.map_cons, List.mem_cons] at hmem
      rw [addTimer, if_neg hx, List.map_cons, if_neg hx, ih h.2 (hmem.resolve_left (Ne.symm hx))]

theorem map_addTimer {β : Type} (f : TimerItem κ → β) {new : TimerItem κ} {items : List (TimerItem κ)}
    (h : (items.map key).Nodup)
    (hf : ∀ x, f { x with interval := new.interval, nextTick := new.nextTick } = f x) :
    (addTimer new items).map f = items.map f ++ if new.key ∈ items.map key then [] else [f new] := by
  by_cases hmem : new.key ∈ items.map key
  · rw [addTimer_of_mem h hmem, if_pos hmem, List.append_nil, List.map_map]
    refine List.map_congr_left fun x _ => ?_
    rw [Function.comp_apply]
    split
    · exact hf x
    · rfl
  · rw [addTimer_of_notMem hmem, if_neg hmem, List.map_append, List.map_singleton]

end TimerItem

theorem nodup_append_ite {α : Type} {l : List α} (h : l.Nodup) {p : Prop} [Decidable p] {a : α}
    (ha : ¬ p → a ∉ l) : (l ++ if p then [] else [a]).Nodup := by
  split
  · rw [List.append_nil]
    exact h
  · next hp =>
    refine List.nodup_append.mpr ⟨h, List.nodup_singleton a, fun x hx y hy => ?_⟩
    rw [List.mem_singleton.mp hy]
    rintro rfl
    exact ha hp hx

namespace TimerList

/-- `AddTimer`; `tick` is what `get_tick_count` says. -/
def addTimer (key : κ) (interval tick : UInt64) (t : TimerList κ) : TimerList κ where
  items := TimerItem.addTimer ⟨t.nodes, key, interval, tick + interval⟩ t.items
  nodes := t.nodes + 1
  keys := by
    rw [TimerItem.map_addTimer TimerItem.key t.keys fun _ => rfl]
    exact nodup_append_ite t.keys id
  ids := by
    rw [TimerItem.map_addTimer TimerItem.id t.keys fun _ => rfl]
    refine nodup_append_ite t.ids fun _ hmem => ?_
    obtain ⟨x, hx, hid⟩ := List.mem_map.mp hmem
    exact absurd (t.old x hx) (by rw [hid]; exact Nat.lt_irrefl _)
  old := by
    intro y hy
    have hid : y.id ∈ (TimerItem.addTimer ⟨t.nodes, key, interval, tick + interval⟩ t.items).map TimerItem.id :=
      List.mem_map_of_mem hy
    rw [TimerItem.map_addTimer TimerItem.id t.keys fun _ => rfl] at hid
    rcases List.mem_append.mp hid with hid | hid
    · obtain ⟨x, hx, hid⟩ := List.mem_map.mp hid
      rw [← hid]
      exact Nat.lt_succ_of_lt (t.old x hx)
    · split at hid
      · exact absurd hid List.not_mem_nil
      · rw [List.mem_singleton.mp hid]
        exact Nat.lt_succ_self _

/-- `RemoveTimer` -/
def removeTimer (key : κ) (t : TimerList κ) : TimerList κ where
  items := TimerItem.removeTimer key t.items
  nodes := t.nodes
  keys := by
    rw [TimerItem.removeTimer_eq t.keys]
    exact t.keys.sublist (List.filter_sublist.map _)
  ids := by
    rw [TimerItem.removeTimer_eq t.keys]
    exact t.ids.sublist (List.filter_sublist.map _)
  old := by
    rw [TimerItem.removeTimer_eq t.keys]
    exact fun x hx => t.old x (List.mem_of_mem_filter hx)

end TimerList

/-- What a callback can do to the timers. -/
inductive TimerOp (κ : Type)
  | add (key : κ) (interval tick : UInt64)
  | remove (key : κ)
  deriving DecidableEq, Repr

namespace TimerOp

def key : TimerOp κ → κ
  | add key _ _ | remove key => key

def apply (t : TimerList κ) : TimerOp κ → TimerList κ
  | add key interval tick => t.addTimer key interval tick
  | remove key => t.removeTimer key

end TimerOp

def TimerList.run (ops : List (TimerOp κ)) (t : TimerList κ) : TimerList κ := ops.foldl TimerOp.apply t

/-! ## What operations make of the entries -/

namespace TimerOp

def keeps (x : TimerItem κ) (o : TimerOp κ) : Bool := o ≠ .remove x.key

/-- An entry that stays. -/
def update (x : TimerItem κ) : TimerOp κ → TimerItem κ
  | add key interval tick => if x.key = key then { x with interval := interval, nextTick := tick + interval } else x
  | remove _ => x

@[simp] theorem update_id (x : TimerItem κ) (o : TimerOp κ) : (update x o).id = x.id := by
  cases o with
  | add key interval tick => simp [update, apply_ite TimerItem.id]
  | remove key => rfl

@[simp] theorem update_key (x : TimerItem κ) (o : TimerOp κ) : (update x o).key = x.key := by
  cases o with
  | add key interval tick => simp [update, apply_ite TimerItem.key]
  | remove key => rfl

theorem update_of_ne {x : TimerItem κ} {o : TimerOp κ} (h : o.key ≠ x.key) : update x o = x := by
  cases o with
  | add key interval tick => exact if_neg (Ne.symm h)
  | remove key => rfl

/-- Entries that stay are kept or restarted; those that are new come behind them, on new nodes. -/
theorem items_apply (t : TimerList κ) (o : TimerOp κ) :
    ∃ born, (apply t o).items = (t.items.filter (keeps · o)).map (update · o) ++ born ∧
      (∀ x ∈ born, t.nodes ≤ x.id) ∧ t.nodes ≤ (apply t o).nodes := by
  cases o with
  | add key interval tick =>
    have hkeeps : t.items.filter (keeps · (.add key interval tick)) = t.items :=
      List.filter_eq_self.mpr fun x _ => decide_eq_true (by simp)
    rw [hkeeps]
    by_cases hmem : key ∈ t.items.map TimerItem.key
    · refine ⟨[], ?_, by simp, Nat.le_succ _⟩
      rw [List.append_nil]
      exact TimerItem.addTimer_of_mem t.keys hmem
    · refine ⟨[⟨t.nodes, key, interval, tick + interval⟩], ?_, by simp, Nat.le_succ _⟩
      have hsame : t.items.map (update · (.add key interval tick)) = t.items := by
        refine (List.map_congr_left fun x hx => ?_).trans (List.map_id' t.items)
        refine update_of_ne ?_
        rintro (rfl : key = x.key)
        exact hmem (List.mem_map_of_mem hx)
      rw [hsame]
      exact TimerItem.addTimer_of_notMem hmem
  | remove key =>
    refine ⟨[], ?_, by simp, Nat.le_refl _⟩
    rw [List.append_nil]
    refine (TimerItem.removeTimer_eq t.keys key).trans ?_
    have hkeeps : ∀ x : TimerItem κ, keeps x (.remove key) = decide (x.key ≠ key) := by
      intro x
      simp [keeps, eq_comm]
    simp [hkeeps, update]

end TimerOp

namespace TimerItem

def keptBy (ops : List (TimerOp κ)) (x : TimerItem κ) : Bool := ops.all (TimerOp.keeps x)

def updateBy (ops : List (TimerOp κ)) (x : TimerItem κ) : TimerItem κ := ops.foldl TimerOp.update x

variable (o : TimerOp κ) (ops : List (TimerOp κ)) (x : TimerItem κ)

@[simp] theorem updateBy_id : (x.updateBy ops).id = x.id := by
  induction ops generalizing x with
  | nil => rfl
  | cons o ops ih => exact (ih _).trans (TimerOp.update_id x o)

theorem keptBy_iff : x.keptBy ops = true ↔ .remove x.key ∉ ops := by
  simp only [keptBy, TimerOp.keeps, List.all_eq_true, decide_eq_true_eq]
  exact ⟨fun h hmem => h _ hmem rfl, fun h o ho heq => h (heq ▸ ho)⟩

theorem keptBy_update : (TimerOp.update x o).keptBy ops = x.keptBy ops := by
  rw [Bool.eq_iff_iff, keptBy_iff, keptBy_iff, TimerOp.update_key]

theorem keptBy_of_ne {x : TimerItem κ} {ops : List (TimerOp κ)} (h : ∀ o ∈ ops, o.key ≠ x.key) :
    x.keptBy ops = true := by
  rw [keptBy_iff]
  exact fun hmem => h _ hmem rfl

theorem updateBy_of_ne {x : TimerItem κ} {ops : List (TimerOp κ)} (h : ∀ o ∈ ops, o.key ≠ x.key) :
    x.updateBy ops = x := by
  induction ops with
  | nil => rfl
  | cons o ops ih =>
    rw [List.forall_mem_cons] at h
    rw [updateBy, List.foldl_cons, TimerOp.update_of_ne h.1]
    exact ih h.2

end TimerItem

/-- What a sequence of operations makes of the entries. -/
theorem items_run (ops : List (TimerOp κ)) (t : TimerList κ) :
    ∃ born, (t.run ops).items = (t.items.filter (·.keptBy ops)).map (·.updateBy ops) ++ born ∧
      (∀ x ∈ born, t.nodes ≤ x.id) ∧ t.nodes ≤ (t.run ops).nodes := by
  induction ops generalizing t with
  | nil =>
    refine ⟨[], ?_, by simp, Nat.le_refl _⟩
    simp [TimerList.run, TimerItem.keptBy, TimerItem.updateBy]
  | cons o ops ih =>
    obtain ⟨born, hitems, hborn, hnodes⟩ := TimerOp.items_apply t o
    obtain ⟨born', hitems', hborn', hnodes'⟩ := ih (TimerOp.apply t o)
    refine ⟨(born.filter (·.keptBy ops)).map (·.updateBy ops) ++ born', ?_, fun x hx => ?_, Nat.le_trans hnodes hnodes'⟩
    · have hfilter : (t.items.filter (TimerOp.keeps · o)).filter (fun x => (TimerOp.update x o).keptBy ops) =
          t.items.filter (·.keptBy (o :: ops)) := by
        rw [List.filter_filter]
        refine List.filter_congr fun x _ => ?_
        rw [TimerItem.keptBy_update, Bool.and_comm]
        rfl
      have hmap : ∀ l : List (TimerItem κ), (l.map (TimerOp.update · o)).map (·.updateBy ops) =
          l.map (·.updateBy (o :: ops)) := fun l => List.map_map
      rw [TimerList.run, List.foldl_cons]
      refine hitems'.trans ?_
      rw [hitems, List.filter_append, List.map_append, List.append_assoc, List.filter_map, hmap]
      simp only [Function.comp_def, hfilter]
    · rcases List.mem_append.mp hx with hx | hx
      · obtain ⟨y, hy, rfl⟩ := List.mem_map.mp hx
        rw [TimerItem.updateBy_id]
        exact hborn y (List.mem_of_mem_filter hy)
      · exact Nat.le_trans hnodes (hborn' x hx)

namespace TimerList

/-- No operation removes the timer of the node. -/
def keptNode (ops : List (TimerOp κ)) (t : TimerList κ) (id : Nat) : Bool :=
  t.items.all fun x => x.id ≠ id ∨ x.keptBy ops

variable {ops : List (TimerOp κ)} {t : TimerList κ} {x : TimerItem κ}

theorem keptNode_of_mem (hx : x ∈ t.items) : t.keptNode ops x.id = x.keptBy ops := by
  rw [Bool.eq_iff_iff, keptNode, List.all_eq_true]
  constructor
  · intro h
    simpa using h x hx
  · intro h y hy
    by_cases hid : y.id = x.id
    · rw [eq_of_id hy hx hid]
      simpa using h
    · simp [hid]

@[simp] theorem keptNode_advance (id : Nat) : (t.advance id).keptNode ops = t.keptNode ops := by
  funext b
  rw [keptNode, advance, List.all_map, keptNode]
  congr 1
  funext x
  rw [Function.comp_apply]
  split <;> rfl

theorem nodeIds_run (ops : List (TimerOp κ)) (t : TimerList κ) :
    ∃ born, (t.run ops).nodeIds = t.nodeIds.filter (t.keptNode ops) ++ born ∧ (∀ b ∈ born, t.nodes ≤ b) ∧
      t.nodes ≤ (t.run ops).nodes := by
  obtain ⟨born, hitems, hborn, hnodes⟩ := items_run ops t
  refine ⟨born.map TimerItem.id, ?_, fun b hb => ?_, hnodes⟩
  · have hkept : t.items.filter (·.keptBy ops) = t.items.filter (t.keptNode ops ∘ TimerItem.id) :=
      List.filter_congr fun x hx => (keptNode_of_mem hx).symm
    rw [nodeIds, hitems, List.map_append, List.map_map, hkept, nodeIds, List.filter_map]
    congr 1
    exact List.map_congr_left fun x _ => TimerItem.updateBy_id ops x
  · obtain ⟨x, hx, rfl⟩ := List.mem_map.mp hb
    exact hborn x hx

/-- A timer that no operation touches stays as it is. -/
theorem mem_run (hx : x ∈ t.items) (h : ∀ o ∈ ops, o.key ≠ x.key) : x ∈ (t.run ops).items := by
  obtain ⟨born, hitems, -, -⟩ := items_run ops t
  rw [hitems, List.mem_append, List.mem_map]
  exact Or.inl ⟨x, List.mem_filter.mpr ⟨hx, TimerItem.keptBy_of_ne h⟩, TimerItem.updateBy_of_ne h⟩

end TimerList

end

end PostfixEdm
