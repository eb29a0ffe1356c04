import PostfixEdm.Base.CJsonBuild
import PostfixEdm.Base.CJsonRun
import PostfixEdm.System.Statuses

/-!
# The statuses of the clients in memory

The functions that make their texts, on the items that `cJSON` allocates. The text itself is not one of the blocks.

* `ClientStatus.newJsonObject`, `addAllClients` : the items;
* `ClientStatus.printed`, `printedAllClients` : `client_status_info::serialize` and `_HandleAllClientStatusInfo`;
* `printedAllClients_ends` : they make the texts of the clients, and free what they allocated.
-/

namespace PostfixEdm

open Fuel Ownership

variable {δ : Type} (dbl : CDouble δ) (malloc : Malloc δ)

/-! ## Programs -/

/-- `getJsonObject` -/
def ClientStatus.newJsonObject (fuel : Nat) (c : ClientStatus) (h : JsonHeap δ) : Option (Addr × JsonHeap δ) := do
  let zero := dbl.ofInt 0
  let (root, h) ← createItem malloc zero .object h
  let h ← addStringToObject malloc zero fuel root (.outside (.ofBytes (ascii "ip"))) c.ip h
  let h ← addStringToObject malloc zero fuel root (.outside (.ofBytes (ascii "emailFromAddr"))) c.emailFromAddr h
  let h ← addNumberToObject malloc zero fuel root (.outside (.ofBytes (ascii "havePushNum")))
    (dbl.ofInt (toDouble c.havePushNum.toInt64.toInt)) h
  let h ← addNumberToObject malloc zero fuel root (.outside (.ofBytes (ascii "mailqNum")))
    (dbl.ofInt (toDouble c.mailqNum.toInt64.toInt)) h
  some (root, h)

/-- The loop of `_HandleAllClientStatusInfo` -/
def addAllClients (fuel : Nat) (root : Addr) : ClientList → JsonHeap δ → Option (JsonHeap δ)
  | [], h => some h
  | c :: clients, h => do
    let (item, h) ← c.newJsonObject dbl malloc fuel h
    let h ← addItemToObject malloc fuel root (.outside c.ip) (some item) h
    addAllClients fuel root clients h

/-- `json_data = cJSON_Print(root);` and `cJSON_Delete(root);` -/
def printAndDelete (fuel : Nat) (root : Addr) (h : JsonHeap δ) : Option (List UInt8 × JsonHeap δ) := do
  let item ← readItem fuel h root
  let h ← cJsonDelete fuel (some root) h
  some (item.print dbl 0 true, h)

/-- `client_status_info::serialize` -/
def ClientStatus.printed (fuel : Nat) (c : ClientStatus) (h : JsonHeap δ) : Option (List UInt8 × JsonHeap δ) := do
  let (root, h) ← c.newJsonObject dbl malloc fuel h
  printAndDelete dbl fuel root h

/-- `json_data` of `_HandleAllClientStatusInfo` -/
def printedAllClients (fuel : Nat) (clients : ClientList) (h : JsonHeap δ) : Option (List UInt8 × JsonHeap δ) := do
  let (root, h) ← createItem malloc (dbl.ofInt 0) .object h
  let h ← addAllClients dbl malloc fuel root clients h
  printAndDelete dbl fuel root h

/-! ## What they build -/

section
variable {h h₁ : JsonHeap δ} {kids kids₁ : Addr → List Addr} {root : Addr}

theorem ClientStatus.newJsonObject_builds (c : ClientStatus) (ht : h.view.Tidy kids) :
    ∃ root h' kids', Ends (fun fuel => c.newJsonObject dbl malloc fuel h) (root, h') ∧
      Builds h kids h' kids' root (c.getJsonObject.toItem dbl) := by
  obtain ⟨h₀, root, hcreate, hb₀⟩ := Builds.createObject malloc (dbl.ofInt 0) ht
  obtain ⟨h₁, kids₁, ⟨n₁, hip⟩, hb₁⟩ := hb₀.addString malloc (dbl.ofInt 0) (.ofBytes (ascii "ip")) c.ip
  obtain ⟨h₂, kids₂, ⟨n₂, hfrom⟩, hb₂⟩ :=
    hb₁.addString malloc (dbl.ofInt 0) (.ofBytes (ascii "emailFromAddr")) c.emailFromAddr
  obtain ⟨h₃, kids₃, ⟨n₃, hpush⟩, hb₃⟩ := hb₂.addNumber malloc (dbl.ofInt 0) (.ofBytes (ascii "havePushNum"))
    (dbl.ofInt (toDouble c.havePushNum.toInt64.toInt))
  obtain ⟨h₄, kids₄, ⟨n₄, hmailq⟩, hb₄⟩ := hb₃.addNumber malloc (dbl.ofInt 0) (.ofBytes (ascii "mailqNum"))
    (dbl.ofInt (toDouble c.mailqNum.toInt64.toInt))
  refine ⟨root, h₄, kids₄, ⟨max (max n₁ n₂) (max n₃ n₄), fun fuel hle => ?_⟩, hb₄⟩
  have hle₁ : n₁ ≤ fuel := by omega
  have hle₂ : n₂ ≤ fuel := by omega
  have hle₃ : n₃ ≤ fuel := by omega
  have hle₄ : n₄ ≤ fuel := by omega
  simp only [ClientStatus.newJsonObject, hcreate, Option.bind_eq_bind, Option.bind_some, hip fuel hle₁, hfrom fuel hle₂,
    hpush fuel hle₃, hmailq fuel hle₄]

/-- The members that the clients add to those that are there. -/
theorem addAllClients_builds (clients : ClientList) {members : JsonMembers δ}
    (hb : Builds h kids h₁ kids₁ root (.object members)) :
    ∃ h' kids', Ends (fun fuel => addAllClients dbl malloc fuel root clients h₁) h' ∧
      Builds h kids h' kids' root (.object (members.append ((clientItems clients).toMembers dbl))) := by
  induction clients generalizing h₁ kids₁ members with
  | nil => exact ⟨h₁, kids₁, .of_forall fun _ => rfl, members.append_nil.symm ▸ hb⟩
  | cons c clients ih =>
    obtain ⟨item, h₂, kids₂, hitem, hb₂⟩ := c.newJsonObject_builds dbl malloc hb.tidy
    obtain ⟨h₃, kids₃, hadd, hb₃⟩ := hb.addToObject malloc hb₂ c.ip
    obtain ⟨h', kids', hrest, hb'⟩ := ih hb₃
    rw [JsonMembers.concat_append] at hb'
    refine ⟨h', kids', ?_, hb'⟩
    exact hitem.bind (g := fun fuel r => (addItemToObject malloc fuel root (.outside c.ip) (some r.1) r.2).bind
      (addAllClients dbl malloc fuel root clients)) (hadd.bind hrest)

theorem printAndDelete_ends {h' : JsonHeap δ} {kids' : Addr → List Addr} {item : CJson} (hexact : item.Exact)
    (hb : Builds h kids h' kids' root (item.toItem dbl)) : ∃ h'',
      Ends (fun fuel => printAndDelete dbl fuel root h') (item.print 0, h'') ∧ h''.view.contents = h.view.contents := by
  obtain ⟨h'', hdelete, hcontents⟩ := hb.deletes
  refine ⟨h'', ?_, hcontents⟩
  rw [← CJson.print_toItem dbl hexact]
  exact hb.reads.bind
    (g := fun fuel item => (cJsonDelete fuel (some root) h').bind fun h => some (item.print dbl 0 true, h))
    (hdelete.bind (.of_forall fun _ => rfl))

/-- A status in memory is the text that the client sends. -/
theorem ClientStatus.printed_ends {c : ClientStatus} (hc : c.Counts) (ht : h.view.Tidy kids) : ∃ h',
    Ends (fun fuel => c.printed dbl malloc fuel h) (c.serialize, h') ∧ h'.view.contents = h.view.contents := by
  obtain ⟨root, h₁, kids₁, hitem, hb⟩ := c.newJsonObject_builds dbl malloc ht
  have hone : (clientItems [c]).Exact :=
    (exact_clientItems dbl fun c' hc' => List.mem_singleton.mp hc' ▸ hc).1
  obtain ⟨h', hprint, hcontents⟩ := printAndDelete_ends dbl hone.1 hb
  refine ⟨h', ?_, hcontents⟩
  exact hitem.bind (g := fun fuel r => printAndDelete dbl fuel r.1 r.2) hprint

/-- The text is the one of the clients, and there is nothing afterwards that was not there before. -/
theorem printedAllClients_ends {clients : ClientList} (hclients : ∀ c ∈ clients, c.Counts) (ht : h.view.Tidy kids) :
    ∃ h', Ends (fun fuel => printedAllClients dbl malloc fuel clients h) (allClientStatus clients, h') ∧
      h'.view.contents = h.view.contents := by
  obtain ⟨h₀, root, hcreate, hb₀⟩ := Builds.createObject malloc (dbl.ofInt 0) ht
  obtain ⟨h₁, kids₁, hloop, hb₁⟩ := addAllClients_builds dbl malloc clients hb₀
  have hexact : (CJson.object (clientItems clients)).Exact := (exact_clientItems dbl hclients).1
  obtain ⟨h', hprint, hcontents⟩ := printAndDelete_ends dbl hexact hb₁
  obtain ⟨n, hn⟩ := hloop.bind (g := fun fuel h => printAndDelete dbl fuel root h) hprint
  refine ⟨h', ⟨n, fun fuel hle => ?_⟩, hcontents⟩
  have hrun := hn fuel hle
  simp only [printedAllClients, hcreate, Option.bind_eq_bind, Option.bind_some]
  exact hrun

/-- Two clients, while another object is there. -/
theorem printedAllClients_ends_two :
    let clients : ClientList := [⟨⟨ascii "10.0.0.5", by decide⟩, ⟨ascii "edm@example.com", by decide⟩, 3, 1⟩,
      ⟨⟨ascii "10.0.0.6", by decide⟩, ⟨ascii "news@example.com", by decide⟩, 250, 40⟩]
    ∃ h h' : JsonHeap Int, (∃ a, h.view.contents a ≠ none) ∧
      Ends (fun fuel => printedAllClients intDouble .beyond fuel clients h) (allClientStatus clients, h') ∧
      h'.view.contents = h.view.contents := by
  intro clients
  obtain ⟨h, a, -, hb⟩ := Builds.createObject .beyond (0 : Int) JsonView.tidy_init
  have hcounts : ∀ c ∈ clients, c.Counts := by
    intro c hc
    rcases List.mem_pair.mp hc with rfl | rfl
    · exact ⟨by decide, by decide⟩
    · exact ⟨by decide, by decide⟩
  obtain ⟨h', hends, hcontents⟩ := printedAllClients_ends intDouble .beyond hcounts hb.tidy
  exact ⟨h, h', ⟨a, hb.contents_ne_none (.refl a)⟩, hends, hcontents⟩

end

end PostfixEdm
