import BossranMenu.Lib.Handles
import BossranMenu.AddressSpace

/-!
# The activation request (`Contact.h`)

`postData` is the text that `SendLoginRequest` builds, `sendLoginRequest` the rest of it: the five
WinINet calls, each with a failure exit that closes what is open and throws.

* `sendLoginRequest_eq`: it returns the status code if all five calls succeed, and throws otherwise.
* `sendLoginRequest_closedOnce`: on every path, what was opened has been closed once.
-/

namespace Bossran

open Handles

/-- The bytes of a string literal. -/
def bytes (s : String) : List BYTE := s.toList.map fun c => BitVec.ofNat 8 c.toNat

theorem bytes_append (s t : String) : bytes (s ++ t) = bytes s ++ bytes t := by
  simp [bytes]

/-- The bytes of a text that is given line by line. -/
def text (lines : List String) : List BYTE := lines.flatMap bytes

/-- `post_data` up to the user name. -/
def postDataUsername : List String :=
  ["\x7b\n",
    "        \"content\": \"\",\n",
    "        \"embeds\": [\n",
    "            \x7b\n",
    "                \"title\": \"Activation Request\",\n",
    "                \"fields\": [\n",
    "                    \x7b \"name\": \"In Game Name\", \"value\": \""]

/-- `post_data` from the user name to the password. -/
def postDataPassword : List String :=
  ["\", \"inline\": true \x7d,\n",
    "                    \x7b \"name\": \"Name of Ran\", \"value\": \""]

/-- `post_data` from the password to the HWID. -/
def postDataHwid : List String :=
  ["\", \"inline\": true \x7d,\n",
    "                    \x7b \"name\": \"HWID\", \"value\": \""]

/-- `post_data` after the HWID. -/
def postDataEnd : List String :=
  ["\", \"inline\": false \x7d\n",
    "                ]\n",
    "            \x7d\n",
    "        ]\n",
    "    \x7d"]

/-- `post_data`. -/
def postData (username password hwid : List BYTE) : List BYTE :=
  text postDataUsername ++ username ++ text postDataPassword ++ password ++
    text postDataHwid ++ hwid ++ text postDataEnd

/-! ## `SendLoginRequest` -/

/-- The WinINet handles of `SendLoginRequest`. -/
inductive Internet where
  | hSession | hConnect | hRequest
  deriving DecidableEq

/-- The outcomes of the WinINet calls. -/
structure InetCalls where
  internetOpenA : Bool
  internetConnectA : Bool
  httpOpenRequestA : Bool
  /-- Whether the request with this body is sent. -/
  httpSendRequestA : List BYTE → Bool
  /-- The status code, unless the query fails. -/
  httpQueryInfoA : Option DWORD

/-- `SendLoginRequest`. -/
def sendLoginRequest (c : InetCalls) (username password hwid : List BYTE) :
    Tracked Internet String Int := do
  let post_data := postData username password hwid
  if !c.internetOpenA then throw "Failed to open session"
  acquire Internet.hSession
  if !c.internetConnectA then
    release Internet.hSession
    throw "Failed to connect to Discord"
  acquire Internet.hConnect
  if !c.httpOpenRequestA then
    release Internet.hConnect
    release Internet.hSession
    throw "Failed to open HTTP request"
  acquire Internet.hRequest
  if !c.httpSendRequestA post_data then
    release Internet.hRequest
    release Internet.hConnect
    release Internet.hSession
    throw "Failed to send request"
  match c.httpQueryInfoA with
  | none =>
    release Internet.hRequest
    release Internet.hConnect
    release Internet.hSession
    throw "Failed to query status code"
  | some status_code =>
    release Internet.hRequest
    release Internet.hConnect
    release Internet.hSession
    return status_code.toInt

/-- The status code of a request whose five calls all succeed. -/
def InetCalls.status (c : InetCalls) (post_data : List BYTE) : Option Int :=
  if c.internetOpenA && c.internetConnectA && c.httpOpenRequestA && c.httpSendRequestA post_data then
    c.httpQueryInfoA.map BitVec.toInt
  else none

/-- The request returns the status code if all calls succeed, and throws otherwise. -/
theorem sendLoginRequest_eq (c : InetCalls) (username password hwid : List BYTE) :
    match c.status (postData username password hwid) with
    | some code => (sendLoginRequest c username password hwid).exec.1 = .ok code
    | none => ∃ what, (sendLoginRequest c username password hwid).exec.1 = .error what := by
  obtain ⟨opens, connects, requests, sends, status⟩ := c
  generalize hd : postData username password hwid = data
  cases opens <;> cases connects <;> cases requests <;> cases hs : sends data <;> cases status <;>
    simp [InetCalls.status, sendLoginRequest, Tracked.exec, Except.map, hd, hs]

/-- Every handle of the request has been closed once when it returns or throws. -/
theorem sendLoginRequest_closedOnce (c : InetCalls) (username password hwid : List BYTE) :
    ClosedOnce (sendLoginRequest c username password hwid).exec.2 := by
  obtain ⟨opens, connects, requests, sends, status⟩ := c
  generalize hd : postData username password hwid = data
  intro h
  cases opens <;> cases connects <;> cases requests <;> cases hs : sends data <;> cases status <;>
    cases h <;> simp [sendLoginRequest, Tracked.exec, hd, hs, Event.handle]

end Bossran
