import BossranMenu.Lib.Handles
import BossranMenu.AddressSpace

/-!
# The computer's SID and the list of activated ones (`authenticator.h`)

Strings are lists of bytes. `SidCalls` and `HttpCalls` are the outcomes of the Win32 and WinHTTP
calls that a function makes; the functions follow the source from there.

* `getComputerSid`: throws on each failing call, and the `catch` turns that into the empty string.
* `downloadContentFromUrl`: the empty string on failure, else what the read loop collected. The
  outcomes of the loop's rounds are a list; the loop has not come to its end if they run out.
* `find`: `std::string::find`, which finds the empty string in every string.
-/

namespace Bossran

open Handles

/-- What `GetComputerSid` and `DownloadContentFromUrl` open and close. -/
inductive Resource where
  | hToken | sidString | hSession | hConnect | hRequest | pszOutBuffer
  deriving DecidableEq

/-! ## `GetComputerSid` -/

/-- The outcomes of the calls that `GetComputerSid` makes. -/
structure SidCalls where
  openProcessToken : Bool
  /-- The size that the first `GetTokenInformation` reports. -/
  bufferSize : DWORD
  getTokenInformation : Bool
  /-- The string that `ConvertSidToStringSidA` makes, unless it fails. -/
  sidString : Option (List BYTE)

/-- The `try` block of `GetComputerSid`. -/
def getComputerSidTry (c : SidCalls) : Tracked Resource String (List BYTE) := do
  if !c.openProcessToken then throw "OpenProcessToken failed"
  acquire Resource.hToken
  if c.bufferSize = 0 then throw "GetTokenInformation failed"
  if !c.getTokenInformation then throw "GetTokenInformation failed"
  release Resource.hToken
  match c.sidString with
  | none => throw "ConvertSidToStringSidA failed"
  | some sidString =>
    acquire Resource.sidString
    release Resource.sidString
    return sidString

/-- `GetComputerSid`. -/
def getComputerSid (c : SidCalls) : List BYTE :=
  match (getComputerSidTry c).exec.1 with
  | .ok result => result
  | .error _ => []

/-! ## `DownloadContentFromUrl` -/

/-- One round of the read loop. -/
inductive Round where
  /-- `WinHttpQueryDataAvailable` fails. -/
  | queryFailed
  /-- `dwSize` bytes are reported; `WinHttpReadData` reads `chunk`, unless it fails. -/
  | available (dwSize : DWORD) (chunk : Option (List BYTE))

/-- The outcomes of the calls that `DownloadContentFromUrl` makes. -/
structure HttpCalls where
  winHttpOpen : Bool
  winHttpConnect : Bool
  winHttpOpenRequest : Bool
  winHttpSendRequest : Bool
  winHttpReceiveResponse : Bool
  rounds : List Round

/-- A computation whose loop may not have come to its end. -/
abbrev Looping := StateT (List (Event Resource)) Option

/-- The read loop, with what was read so far. -/
def readLoop : List Round → List BYTE → Looping (List BYTE)
  | [], _ => failure
  | .queryFailed :: _, response => return response
  | .available dwSize chunk :: rounds, response => do
    acquire Resource.pszOutBuffer
    let response := match chunk with
      | some read => response ++ read
      | none => response
    release Resource.pszOutBuffer
    if dwSize > 0 then readLoop rounds response else return response

/-- `DownloadContentFromUrl`. -/
def downloadContentFromUrl (c : HttpCalls) : Looping (List BYTE) := do
  if !c.winHttpOpen then return []
  acquire Resource.hSession
  if !c.winHttpConnect then
    release Resource.hSession
    return []
  acquire Resource.hConnect
  if !c.winHttpOpenRequest then
    release Resource.hConnect
    release Resource.hSession
    return []
  acquire Resource.hRequest
  let bResults := c.winHttpSendRequest && c.winHttpReceiveResponse
  let response ← if bResults then readLoop c.rounds [] else pure []
  release Resource.hRequest
  release Resource.hConnect
  release Resource.hSession
  return response

/-- The downloaded body, unless the read loop still runs. -/
def HttpCalls.body (c : HttpCalls) : Option (List BYTE) := (downloadContentFromUrl c).run' []

/-! ## `IsHWIDPresent` -/

/-- `std::string::find`: the first position at which `t` occurs in `s`. -/
def find (s t : List BYTE) : Option Nat :=
  (List.range (s.length + 1)).find? fun i => t.isPrefixOf (s.drop i)

theorem find_isSome {s t : List BYTE} : (find s t).isSome ↔ t <:+: s := by
  unfold find
  rw [List.find?_isSome]
  simp only [List.mem_range, List.isPrefixOf_iff_prefix]
  constructor
  · rintro ⟨i, -, hi⟩
    exact hi.isInfix.trans (List.drop_suffix i s).isInfix
  · rintro ⟨pre, post, rfl⟩
    refine ⟨pre.length, by simp only [List.length_append]; omega, ?_⟩
    rw [List.append_assoc, List.drop_left]
    exact List.prefix_append _ _

/-- `IsHWIDPresent`, on the downloaded content. -/
def isHWIDPresent (pasteContent targetHWID : List BYTE) : Bool := (find pasteContent targetHWID).isSome

theorem isHWIDPresent_iff {pasteContent targetHWID : List BYTE} :
    isHWIDPresent pasteContent targetHWID = true ↔ targetHWID <:+: pasteContent :=
  find_isSome

end Bossran
