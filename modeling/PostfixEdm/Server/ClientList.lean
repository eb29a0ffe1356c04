import PostfixEdm.Base.CJson
import PostfixEdm.Server.Registry
import PostfixEdm.Server.ServConn

/-!
# The list of all clients: `_HandleAllClientStatusInfo`

* `ClientStatus` : a status with its strings; `filled_of_reachable` : in every run the monitor holds no others;
* `ClientStatus.getJsonObject`, `allClientStatus` : the item of a status, and the text of all;
* `ServerStatusInfo.serialize_eq_print` : the text of the job state is laid out in the same way.
-/

namespace PostfixEdm

structure ClientStatus where
  ip : CString
  emailFromAddr : CString
  havePushNum : UInt64
  mailqNum : UInt64

namespace ClientStatus

def info (c : ClientStatus) : ClientStatusInfo :=
  ⟨some c.ip.bytes, some c.emailFromAddr.bytes, c.havePushNum, c.mailqNum⟩

/-- The numbers are `int64_t`, and become `double`. -/
def getJsonObject (c : ClientStatus) : CJson :=
  .object (.cons ⟨ascii "ip", by decide⟩ (.string c.ip)
    (.cons ⟨ascii "emailFromAddr", by decide⟩ (.string c.emailFromAddr)
      (.cons ⟨ascii "havePushNum", by decide⟩ (.number (toDouble c.havePushNum.toInt64.toInt))
        (.cons ⟨ascii "mailqNum", by decide⟩ (.number (toDouble c.mailqNum.toInt64.toInt)) .nil))))

end ClientStatus

/-! ## What the registry holds -/

/-- Every entry is a status with its strings, under its ip. -/
def Filled (maps : ClientStatusMap) : Prop :=
  ∀ ip info, maps ip = some info → ∃ c : ClientStatus, info = c.info ∧ ip = c.ip.bytes

/-- A heartbeat that reports an ip is a status. -/
theorem exists_clientStatus {parse : ClientStatusReader} {jsonData ip : List UInt8}
    (h : (ClientStatusInfo.unserialize parse jsonData).2.ip = some ip) :
    ∃ c : ClientStatus, (ClientStatusInfo.unserialize parse jsonData).2 = c.info ∧ ip = c.ip.bytes := by
  unfold ClientStatusInfo.unserialize at h ⊢
  cases hparse : parse (cstr jsonData) with
  | none =>
    rw [hparse] at h
    cases h
  | some value =>
    rw [hparse] at h
    cases h
    exact ⟨⟨.ofBytes value.ip, .ofBytes value.emailFromAddr, value.havePushNum, value.mailqNum⟩, rfl, rfl⟩

theorem Filled.insert {maps : ClientStatusMap} (h : Filled maps) (c : ClientStatus) :
    Filled (Function.update maps c.ip.bytes (some c.info)) := by
  intro ip info hinfo
  by_cases hip : ip = c.ip.bytes
  · rw [hip, Function.update_self] at hinfo
    cases hinfo
    exact ⟨c, rfl, hip⟩
  · rw [Function.update_of_ne hip] at hinfo
    exact h ip info hinfo

theorem Filled.erase {maps : ClientStatusMap} (h : Filled maps) (ip : List UInt8) :
    Filled (Function.update maps ip none) := by
  intro other info hinfo
  by_cases hip : other = ip
  · rw [hip, Function.update_self] at hinfo
    cases hinfo
  · rw [Function.update_of_ne hip] at hinfo
    exact h other info hinfo

section
variable {κ : Type} [DecidableEq κ] {parse : ClientStatusReader} {s s' : Registry κ}

theorem Filled.step (h : Filled s.maps) {a : Registry.Act κ} (hstep : Registry.step parse a s = some s') :
    Filled s'.maps := by
  cases a with
  | accept k remoteIp =>
    simp only [Registry.step, Option.ite_none_right_eq_some, Option.some.injEq] at hstep
    obtain ⟨-, rfl⟩ := hstep
    exact h
  | heartbeat k jsonData =>
    obtain ⟨_, ip, info, -, rfl, hip, rfl⟩ := Registry.heartbeat_cases hstep
    obtain ⟨c, hc, rfl⟩ := exists_clientStatus hip
    change Filled (Function.update s.maps c.ip.bytes (some (ClientStatusInfo.unserialize parse jsonData).2))
    rw [hc]
    exact h.insert c
  | close k =>
    obtain ⟨c, -, rfl⟩ := Registry.close_cases hstep
    exact h.erase c.remoteIp

/-- In every run, what the monitor holds are statuses with their strings. -/
theorem filled_of_reachable (h : Transition.Reachable (Registry.step parse) Registry.init s) : Filled s.maps := by
  refine h.invariant (motive := fun s => Filled s.maps) ?start fun _ _ _ hs _ hstep => hs.step hstep
  intro ip info hinfo
  cases hinfo

end

/-! ## The text -/

/-- `client_status_maps`, in the order of the map. -/
abbrev ClientList := List ClientStatus

/-- The loop of `_HandleAllClientStatusInfo`; the key of an entry is its ip. -/
def clientItems : ClientList → CJsonItems
  | [] => .nil
  | c :: clients => .cons c.ip c.getJsonObject (clientItems clients)

/-- `json_data` -/
def allClientStatus (clients : ClientList) : List UInt8 := (CJson.object (clientItems clients)).print 0

theorem nul_notMem_allClientStatus (clients : ClientList) : 0 ∉ allClientStatus clients :=
  CJson.nul_notMem_print 0 _

theorem allClientStatus_eq (clients : ClientList) : ∃ text, allClientStatus clients = text ++ [125] :=
  CJson.print_object 0 _

/-- A number of 16 bits, as an item. -/
def wordItem (n : UInt16) : CJson := .number (toDouble n.toNat)

/-- `serialize` lays out its members like `cJSON_Print`. -/
theorem ServerStatusInfo.serialize_eq_print (info : ServerStatusInfo) :
    info.serialize = (CJson.object
      (.cons ⟨ascii "status", by decide⟩ (wordItem info.job.status)
        (.cons ⟨ascii "delay", by decide⟩ (wordItem info.job.delay)
          (.cons ⟨ascii "multi", by decide⟩ (wordItem info.job.multi)
            (.cons ⟨ascii "totalNum", by decide⟩ (.number (toDouble info.totalNum.toNat))
              (.cons ⟨ascii "online_client_num", by decide⟩ (wordItem info.onlineClientNum) .nil)))))).print 0 := by
  have hword : ∀ n : UInt16, (wordItem n).print 1 = decimal n.toNat := by
    intro n
    have := n.toNat_lt
    rw [wordItem, CJson.print, printNumber_toDouble, roundDouble, if_pos (by omega)]
  simp only [CJson.print, CJsonItems.print, hword, serialize, List.append_assoc]
  rfl

end PostfixEdm
