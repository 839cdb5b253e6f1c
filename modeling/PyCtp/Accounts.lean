import PyCtp.ConfigReference
import PyCtp.Recorder

/-!
# The account in the requests

The login and logout requests of both APIs. Each of the four functions looks up its own
keys, and a key that is missing reads as the empty string.
-/
namespace PyCtp
open Config MdApi

/-- The request that `MdApi::logout` builds. -/
def MdApi.logoutRequest (sizes : FieldSizes) : Option CThostFtdcUserLogoutField := do
  let brokerID ← strcpyS sizes.brokerID "9999".toList
  let userID ← strcpyS sizes.userID "092433".toList
  return ⟨brokerID, userID⟩

/-- The request that `tdapi::login` builds. -/
def Tdapi.loginRequest (sizes : FieldSizes) (cfg : Config) :
    Option CThostFtdcReqUserLoginField := do
  let brokerID ← strcpyS sizes.brokerID (cfg.read "brokerID".toList [])
  let userID ← strcpyS sizes.userID (cfg.read "investorID".toList [])
  let password ← strcpyS sizes.password (cfg.read "password".toList [])
  return ⟨brokerID, userID, password⟩

/-- The request that `tdapi::logout` builds. -/
def Tdapi.logoutRequest (sizes : FieldSizes) (cfg : Config) :
    Option CThostFtdcUserLogoutField := do
  let brokerID ← strcpyS sizes.brokerID (cfg.read "brokerID".toList [])
  let userID ← strcpyS sizes.userID (cfg.read "investorID".toList [])
  return ⟨brokerID, userID⟩

namespace Accounts
variable (sizes : FieldSizes) (cfg : Config)

def value (key : String) : Text := cStr (cfg.read key.toList [])

structure Fits : Prop where
  brokerID : (value cfg "brokerID").length < sizes.brokerID
  investorId : (value cfg "investorId").length < sizes.userID
  investorID : (value cfg "investorID").length < sizes.userID
  password : (value cfg "password").length < sizes.password

/-- Both logins send the same account, and each logout sends that of its login. -/
def OneAccount : Prop :=
  ∃ mdLogin tdLogin mdLogout tdLogout,
    MdApi.loginRequest sizes cfg = some mdLogin ∧ Tdapi.loginRequest sizes cfg = some tdLogin ∧
    MdApi.logoutRequest sizes = some mdLogout ∧ Tdapi.logoutRequest sizes cfg = some tdLogout ∧
    mdLogin = tdLogin ∧ mdLogout = ⟨mdLogin.brokerID, mdLogin.userID⟩ ∧
    tdLogout = ⟨tdLogin.brokerID, tdLogin.userID⟩

/-- The account that `MdApi::logout` names is configured under both spellings of its key. -/
structure NamesBuiltIn : Prop where
  brokerID : value cfg "brokerID" = "9999".toList
  investorId : value cfg "investorId" = "092433".toList
  investorID : value cfg "investorID" = "092433".toList

variable {sizes cfg}

theorem strcpyS_of_lt {size : ℕ} {src : Text} (h : (cStr src).length < size) :
    strcpyS size src = some (cStr src) := if_pos h

theorem strcpyS_eq_some {size : ℕ} {src s : Text} (h : strcpyS size src = some s) :
    s = cStr src := by
  rw [strcpyS] at h
  split at h
  · exact (Option.some.inj h).symm
  · cases h

theorem Fits.requests (h : Fits sizes cfg) :
    MdApi.loginRequest sizes cfg =
        some ⟨value cfg "brokerID", value cfg "investorId", value cfg "password"⟩ ∧
      Tdapi.loginRequest sizes cfg =
        some ⟨value cfg "brokerID", value cfg "investorID", value cfg "password"⟩ ∧
      Tdapi.logoutRequest sizes cfg =
        some ⟨value cfg "brokerID", value cfg "investorID"⟩ := by
  have hbroker := strcpyS_of_lt h.brokerID
  have hmd := strcpyS_of_lt h.investorId
  have htd := strcpyS_of_lt h.investorID
  have hpass := strcpyS_of_lt h.password
  rw [MdApi.loginRequest, Tdapi.loginRequest, Tdapi.logoutRequest, hbroker, hmd, htd, hpass]
  exact ⟨rfl, rfl, rfl⟩

theorem mdLogout_eq {req : CThostFtdcUserLogoutField} (h : MdApi.logoutRequest sizes = some req) :
    req = ⟨"9999".toList, "092433".toList⟩ := by
  rw [MdApi.logoutRequest, Option.bind_eq_bind, Option.bind_eq_some_iff] at h
  obtain ⟨brokerID, hbroker, h⟩ := h
  rw [Option.bind_eq_some_iff] at h
  obtain ⟨userID, huser, h⟩ := h
  obtain rfl := strcpyS_eq_some hbroker
  obtain rfl := strcpyS_eq_some huser
  exact (Option.some.inj h).symm

theorem NamesBuiltIn.logoutRequest (hn : NamesBuiltIn cfg) (h : Fits sizes cfg) :
    MdApi.logoutRequest sizes = some ⟨"9999".toList, "092433".toList⟩ := by
  have hbrokerLen := h.brokerID
  have huserLen := h.investorID
  rw [hn.brokerID] at hbrokerLen
  rw [hn.investorID] at huserLen
  have hbroker : strcpyS sizes.brokerID "9999".toList = some "9999".toList :=
    strcpyS_of_lt hbrokerLen
  have huser : strcpyS sizes.userID "092433".toList = some "092433".toList :=
    strcpyS_of_lt huserLen
  rw [MdApi.logoutRequest, hbroker, huser]
  rfl

/-- A configuration file gives one account exactly when it gives the built-in one. -/
theorem oneAccount_iff (s : Text) (h : Fits sizes (loadText s empty)) :
    OneAccount sizes (loadText s empty) ↔ NamesBuiltIn (loadText s empty) := by
  obtain ⟨hmd, htd, hout⟩ := h.requests
  constructor
  · rintro ⟨mdLogin, tdLogin, mdLogout, tdLogout, h1, h2, h3, -, hlogin, hlogout, -⟩
    obtain rfl := Option.some.inj (hmd.symm.trans h1)
    obtain rfl := Option.some.inj (htd.symm.trans h2)
    obtain rfl := mdLogout_eq h3
    injection hlogin with _ huser _
    injection hlogout with hbroker hid
    exact ⟨hbroker.symm, hid.symm, huser.symm.trans hid.symm⟩
  · intro hn
    refine ⟨_, _, _, _, hmd, htd, hn.logoutRequest h, hout, ?_, ?_, rfl⟩
    · rw [hn.investorId, hn.investorID]
    · rw [hn.brokerID, hn.investorId]

def ctpSizes : FieldSizes := ⟨11, 16, 41⟩

def bothSpellings : List Text :=
  ["brokerID = 9999".toList, "investorId = 092433".toList, "investorID = 092433".toList]

theorem oneAccount_bothSpellings :
    OneAccount ctpSizes (loadText (terminated '\n' bothSpellings) empty) := by
  have hload := loadText_lines (show ∀ l ∈ bothSpellings, '\n' ∉ l by decide) .empty
  refine (oneAccount_iff (terminated '\n' bothSpellings) ?_).mpr ?_
  · rw [empty, hload]
    constructor <;> decide +kernel
  · rw [empty, hload]
    constructor <;> decide +kernel

def shippedAccount : List Text :=
  ["investorID = 092433".toList, "brokerID = 9999".toList, "password = zm19641".toList]

/-- With it `MdApi` logs in without a user. -/
theorem not_oneAccount_shippedAccount :
    Fits ctpSizes (loadText (terminated '\n' shippedAccount) empty) ∧
      ¬OneAccount ctpSizes (loadText (terminated '\n' shippedAccount) empty) := by
  have hload := loadText_lines (show ∀ l ∈ shippedAccount, '\n' ∉ l by decide) .empty
  rw [empty, hload]
  generalize hcfg : (⟨"=".toList, "#".toList, _⟩ : Config) = cfg
  have hvalues : value cfg "brokerID" = "9999".toList ∧ value cfg "investorId" = [] ∧
      value cfg "investorID" = "092433".toList ∧ value cfg "password" = "zm19641".toList := by
    rw [← hcfg]
    decide +kernel
  obtain ⟨hbroker, hmdUser, htdUser, hpass⟩ := hvalues
  have hfits : Fits ctpSizes cfg := by
    constructor
    · rw [hbroker]; decide
    · rw [hmdUser]; decide
    · rw [htdUser]; decide
    · rw [hpass]; decide
  obtain ⟨hmd, htd, -⟩ := hfits.requests
  refine ⟨hfits, ?_⟩
  rintro ⟨mdLogin, tdLogin, -, -, h1, h2, -, -, hlogin, -⟩
  obtain rfl := Option.some.inj (hmd.symm.trans h1)
  obtain rfl := Option.some.inj (htd.symm.trans h2)
  injection hlogin with _ huser _
  rw [hmdUser, htdUser] at huser
  exact absurd huser (by decide)

end Accounts
end PyCtp
