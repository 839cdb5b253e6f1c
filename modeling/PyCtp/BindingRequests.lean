import PyCtp.Config
import PyCtp.FieldBlocks

/-!
# Requests built from a dictionary

`reqUserLogin` and `reqUserLogout` of the binding clear a structure and copy one string
after the other into its fields. `getStr` passes the length of the string as the size of
the field, so nothing stops a string that is longer than its field.
-/
namespace PyCtp
open FieldBlocks

namespace Binding

/-- A value in a dictionary, as far as `extract<std::string>` tells. -/
inductive PyObject
  | str (s : Text)
  | other
  deriving DecidableEq, Repr

abbrev PyDict := Text → Option PyObject

/-- Memory around a structure, by the distance from its start. -/
abbrev Memory := ℕ → Char

/-- `getStr`: copy the string under a key, if there is one, up to its first terminator. -/
def getStr (d : PyDict) (key : Text) (value : ℕ) (m : Memory) : Memory :=
  match d key with
  | some (.str s) => write m value (Config.cStr s ++ ['\x00'])
  | _ => m

/-- The members of `CThostFtdcReqUserLoginField` that `reqUserLogin` fills in. -/
inductive LoginField
  | tradingDay | brokerID | userID | password | userProductInfo | interfaceProductInfo
  | protocolInfo | macAddress | oneTimePassword | clientIPAddress
  deriving DecidableEq

def LoginField.key : LoginField → Text
  | .tradingDay => "TradingDay".toList
  | .brokerID => "BrokerID".toList
  | .userID => "UserID".toList
  | .password => "Password".toList
  | .userProductInfo => "UserProductInfo".toList
  | .interfaceProductInfo => "InterfaceProductInfo".toList
  | .protocolInfo => "ProtocolInfo".toList
  | .macAddress => "MacAddress".toList
  | .oneTimePassword => "OneTimePassword".toList
  | .clientIPAddress => "ClientIPAddress".toList

inductive LogoutField
  | brokerID | userID
  deriving DecidableEq

def LogoutField.key : LogoutField → Text
  | .brokerID => "BrokerID".toList
  | .userID => "UserID".toList

def zeroed {κ : Type*} (L : Layout κ) (m : Memory) : Memory := fun a =>
  if a < L.size then '\x00' else m a

/-- The structure that `reqUserLogin` sends. -/
def reqUserLogin (L : Layout LoginField) (req : PyDict) (m : Memory) : Memory :=
  let m := zeroed L m
  let m := getStr req "MacAddress".toList (L.offset .macAddress) m
  let m := getStr req "UserProductInfo".toList (L.offset .userProductInfo) m
  let m := getStr req "UserID".toList (L.offset .userID) m
  let m := getStr req "TradingDay".toList (L.offset .tradingDay) m
  let m := getStr req "InterfaceProductInfo".toList (L.offset .interfaceProductInfo) m
  let m := getStr req "BrokerID".toList (L.offset .brokerID) m
  let m := getStr req "ClientIPAddress".toList (L.offset .clientIPAddress) m
  let m := getStr req "OneTimePassword".toList (L.offset .oneTimePassword) m
  let m := getStr req "ProtocolInfo".toList (L.offset .protocolInfo) m
  getStr req "Password".toList (L.offset .password) m

/-- The structure that `reqUserLogout` sends. -/
def reqUserLogout (L : Layout LogoutField) (req : PyDict) (m : Memory) : Memory :=
  let m := zeroed L m
  let m := getStr req "UserID".toList (L.offset .userID) m
  getStr req "BrokerID".toList (L.offset .brokerID) m

def loginCalls : List LoginField :=
  [.macAddress, .userProductInfo, .userID, .tradingDay, .interfaceProductInfo, .brokerID,
    .clientIPAddress, .oneTimePassword, .protocolInfo, .password]

def logoutCalls : List LogoutField := [.userID, .brokerID]

theorem mem_loginCalls (k : LoginField) : k ∈ loginCalls := by cases k <;> decide

theorem mem_logoutCalls (k : LogoutField) : k ∈ logoutCalls := by cases k <;> decide

section Requests
variable {κ : Type*} (L : Layout κ) (key : κ → Text)

/-- Each call of `getStr` in turn changes only bytes of its own field. -/
def CallsInFields (req : PyDict) : Memory → List κ → Prop
  | _, [] => True
  | m, k :: ks =>
    (∀ a, getStr req (key k) (L.offset k) m a ≠ m a → L.Within k a) ∧
      CallsInFields req (getStr req (key k) (L.offset k) m) ks

/-- The bytes of a field hold exactly a string: it is what they read as, and zeros follow. -/
structure Holds (bytes s : Text) : Prop where
  text : Config.cStr bytes = s
  rest : bytes = s ++ List.replicate (bytes.length - s.length) '\x00'

/-- Each call keeps to its field, and the request sent has every string of the dictionary that
fits in its field and nothing in the fields without a string. -/
structure SentRight (calls : List κ) (req : PyDict) (m sent : Memory) : Prop where
  calls : CallsInFields L key req (zeroed L m) calls
  fitting : ∀ k s, req (key k) = some (.str s) → s.length < L.capacity k →
    Holds (L.field sent k) s
  missing : ∀ k, (∀ s, req (key k) ≠ some (.str s)) →
    L.field sent k = List.replicate (L.capacity k) '\x00'

/-- The characters that `getStr` copies. -/
def copied (req : PyDict) (key : Text) : Option Text :=
  match req key with
  | some (.str s) => some (Config.cStr s)
  | _ => none

/-- What a string and its terminator put past the end of its field is already there, in a
structure that holds the strings of the earlier calls, each cut off at the end of its field. -/
def NothingSpilled (calls : List κ) (req : PyDict) (m : Memory) : Prop :=
  NoSpills L '\x00' (fun k => copied req (key k)) (zeroed L m) calls

/-- No string that fits in its field has a terminator in it. -/
def FittingWhole (req : PyDict) : Prop :=
  ∀ k s, req (key k) = some (.str s) → s.length < L.capacity k → '\x00' ∉ s

variable {L key}

theorem copied_of_str {req : PyDict} {k s : Text} (h : req k = some (.str s)) :
    copied req k = some (Config.cStr s) := by rw [copied, h]

theorem copied_eq_none_iff {req : PyDict} {k : Text} :
    copied req k = none ↔ ∀ s, req k ≠ some (.str s) := by
  rw [copied]
  split
  · rename_i s hs
    simp [hs]
  · rename_i hno
    simpa using hno

theorem copy_eq_getStr (req : PyDict) (m : Memory) (k : κ) :
    copy L '\x00' (fun k => copied req (key k)) m k = getStr req (key k) (L.offset k) m := by
  rw [copy, getStr, copied]
  split
  · rename_i hnone
    split at hnone <;> simp_all
  · rename_i s hs
    split at hs <;> simp_all

theorem callsInFields_iff (req : PyDict) (m : Memory) (ks : List κ) :
    CallsInFields L key req m ks ↔
      OwnFields L '\x00' (fun k => copied req (key k)) m ks := by
  induction ks generalizing m with
  | nil => exact Iff.rfl
  | cons k ks ih =>
    rw [CallsInFields, OwnFields, ih, OwnField, copy_eq_getStr]

theorem zeroed_within (m : Memory) {k : κ} {a : ℕ} (ha : L.Within k a) :
    zeroed L m a = '\x00' := if_pos (ha.2.trans_le (L.inside k))

theorem Holds.no_nul {bytes s : Text} (h : Holds bytes s) : '\x00' ∉ s :=
  h.text ▸ Config.nul_not_mem_cStr bytes

theorem holds_of_padded {bytes s : Text} {n : ℕ} (hs : '\x00' ∉ s)
    (h : bytes = s ++ List.replicate n '\x00') (hn : 0 < n) : Holds bytes s := by
  obtain ⟨n, rfl⟩ := Nat.exists_eq_succ_of_ne_zero hn.ne'
  constructor
  · rw [h, List.replicate_succ]
    exact Config.cStr_append_nul hs _
  · rw [h, List.length_append, Nat.add_sub_cancel_left, List.length_replicate]

theorem sentRight_iff {calls : List κ} (hnd : calls.Nodup) (hall : ∀ k, k ∈ calls)
    {req : PyDict} {m sent : Memory}
    (hsent : sent = calls.foldl (fun m k => getStr req (key k) (L.offset k) m) (zeroed L m)) :
    SentRight L key calls req m sent ↔
      NothingSpilled L key calls req m ∧ FittingWhole L key req := by
  have hcopies : sent =
      calls.foldl (copy L '\x00' fun k => copied req (key k)) (zeroed L m) := by
    rw [hsent]
    congr 1
    funext m k
    exact (copy_eq_getStr req m k).symm
  constructor
  · intro h
    refine ⟨?_, fun k s hs hfit => (h.fitting k s hs hfit).no_nul⟩
    exact (ownFields_iff_noSpills _ _).mp ((callsInFields_iff req _ calls).mp h.calls)
  · rintro ⟨h, hwhole⟩
    have hexact := (exact_iff_noSpills hnd fun k _ a ha => zeroed_within m ha).mpr h
    rw [hcopies]
    refine ⟨(callsInFields_iff req _ calls).mpr hexact.ownFields, fun k s hs hfit => ?_,
      fun k hnone => hexact.missing k (hall k) (copied_eq_none_iff.mpr hnone)⟩
    have hno := hwhole k s hs hfit
    have hcopied : copied req (key k) = some s := by
      rw [copied_of_str hs, Config.cStr_of_no_nul hno]
    exact holds_of_padded hno (hexact.fitting k (hall k) s hcopied hfit) (by omega)

theorem nothingSpilled_of_fitting {calls : List κ} {req : PyDict} (m : Memory)
    (h : ∀ k s, req (key k) = some (.str s) → s.length < L.capacity k) :
    NothingSpilled L key calls req m := by
  refine noSpills_of_fitting fun k _ c hc => ?_
  rw [copied] at hc
  split at hc
  · rename_i s hs
    obtain rfl := Option.some.inj hc
    exact (Config.length_cStr_le s).trans_lt (h k s hs)
  · cases hc

end Requests

/-- A request of either kind is right, and built without touching other fields, if and only if
no string spills out of its field into bytes that differ and none that fits has a terminator in
it; so it is if all strings fit and have none. -/
theorem requests_right_iff (login : Layout LoginField) (logout : Layout LogoutField) (req : PyDict)
    (m : Memory) :
    ((SentRight login LoginField.key loginCalls req m (reqUserLogin login req m) ↔
        NothingSpilled login LoginField.key loginCalls req m ∧
          FittingWhole login LoginField.key req) ∧
      (SentRight logout LogoutField.key logoutCalls req m (reqUserLogout logout req m) ↔
        NothingSpilled logout LogoutField.key logoutCalls req m ∧
          FittingWhole logout LogoutField.key req)) ∧
    ((∀ k s, req (LoginField.key k) = some (.str s) → s.length < login.capacity k) →
      NothingSpilled login LoginField.key loginCalls req m) ∧
    ((∀ k s, req (LogoutField.key k) = some (.str s) → s.length < logout.capacity k) →
      NothingSpilled logout LogoutField.key logoutCalls req m) := by
  refine ⟨⟨?_, ?_⟩, nothingSpilled_of_fitting m, nothingSpilled_of_fitting m⟩
  · exact sentRight_iff (by decide) mem_loginCalls rfl
  · exact sentRight_iff (by decide) mem_logoutCalls rfl

def ctpLogout : Layout LogoutField where
  size := 27
  offset
    | .brokerID => 0
    | .userID => 11
  capacity
    | .brokerID => 11
    | .userID => 16
  inside k := by cases k <;> decide
  disjoint j k h := by cases j <;> cases k <;> simp_all

def longBroker : PyDict := fun key =>
  if key = "UserID".toList then some (.str "092433".toList)
  else if key = "BrokerID".toList then some (.str "999999999999".toList)
  else none

/-- A broker id of twelve characters replaces the user id by a part of itself. -/
theorem longBroker_not_right :
    ¬SentRight ctpLogout LogoutField.key logoutCalls longBroker (fun _ => '\x00')
      (reqUserLogout ctpLogout longBroker fun _ => '\x00') := by
  intro h
  have huser := (h.fitting .userID "092433".toList (by decide) (by decide)).text
  exact absurd huser (by decide +kernel)

end Binding
end PyCtp
