import BossranMenu.Authenticator
import BossranMenu.Contact
import BossranMenu.Lib.Multipart
import Mathlib.Data.List.TakeWhile

/-!
# The report of the anti-cheat (`AntiCheat.h`)

`multipartRequest` is the header and the body that `PostMultipartRequest` sends; the rest of the
function opens and closes its handles.

* `postMultipartRequest_closedOnce`: on every path, what was opened has been closed once.
* `multipart_decodes_iff`: the body decodes to the two contents exactly if the delimiter, whose
  boundary is chosen without a look at them, does not occur in them. The length is always right.
-/

namespace Bossran

open Handles

/-- `std::to_string`. -/
def to_string (n : Nat) : List BYTE := bytes (toString n)

/-- `GetIPAddress`, given what it downloaded. -/
def getIPAddress (response : Option (List BYTE)) : List BYTE :=
  match response with
  | none => bytes "Unknown"
  | some response =>
    match find response (bytes "\"ip\":\"") with
    | none => bytes "Unknown"
    | some ipStart =>
      let rest := response.drop (ipStart + 6)
      match find rest (bytes "\"") with
      | none => bytes "Unknown"
      | some ipLength => rest.take ipLength

/-- `jsonPart` up to the HWID. -/
def jsonPartHwid : List String :=
  ["\x7b\n",
    "        \"content\": \"\",\n",
    "        \"embeds\": [ \n",
    "            \x7b\n",
    "                \"title\": \"Detection Report\",\n",
    "                \"fields\": [\n",
    "                    \x7b \"name\": \":desktop:  HWID:\", \"value\": \""]

/-- `jsonPart` from the HWID to the IP address. -/
def jsonPartIp : List String :=
  ["\", \"inline\": true \x7d,\n",
    "                    \x7b \"name\": \":globe_with_meridians:  IP Address:\", \"value\": \""]

/-- `jsonPart` after the IP address. -/
def jsonPartEnd : List String :=
  ["\", \"inline\": false \x7d\n",
    "                ],\n",
    "                \"image\": \x7b\n",
    "                     \"url\": \"https://share.creavite.co/66ff6d94d5095e1d66297165.gif\"\n",
    "                \x7d\n",
    "            \x7d\n",
    "        ]\n",
    "    \x7d"]

/-- `jsonPart`. -/
def jsonPart (hwid ip : List BYTE) : List BYTE :=
  text jsonPartHwid ++ hwid ++ text jsonPartIp ++ ip ++ text jsonPartEnd

/-- `boundary`. -/
def multipartBoundary (tickCount : BitVec 64) : List BYTE :=
  bytes "------------------------" ++ to_string tickCount.toNat

/-- `body`. -/
def multipartBody (boundary json fileData : List BYTE) : List BYTE :=
  bytes "--" ++ boundary ++ bytes "\r\n" ++
    bytes "Content-Disposition: form-data; name=\"payload_json\"\r\n\r\n" ++
    json ++ bytes "\r\n" ++
    bytes "--" ++ boundary ++ bytes "\r\n" ++
    bytes "Content-Disposition: form-data; name=\"file1\"; filename=\"Yume.png\"\r\n" ++
    bytes "Content-Type: image/png\r\n\r\n" ++
    fileData ++ bytes "\r\n" ++
    bytes "--" ++ boundary ++ bytes "--\r\n"

/-- `headers`. -/
def multipartHeaders (boundary body : List BYTE) : List BYTE :=
  bytes "Content-Type: multipart/form-data; boundary=" ++ boundary ++ bytes "\r\n" ++
    bytes "Content-Length: " ++ to_string body.length ++ bytes "\r\n\r\n"

/-- A request: its header and its body. -/
structure Request where
  headers : List BYTE
  body : List BYTE

/-- The request of `PostMultipartRequest`, given `GetTickCount64` and `GetIPAddress`. -/
def multipartRequest (tickCount : BitVec 64) (hwid ip fileData : List BYTE) : Request :=
  let boundary := multipartBoundary tickCount
  let body := multipartBody boundary (jsonPart hwid ip) fileData
  ⟨multipartHeaders boundary body, body⟩

/-! ## `PostMultipartRequest` -/

/-- The outcomes of the calls of `PostMultipartRequest`; a failing one leaves an error code. -/
structure MultipartCalls where
  internetOpenA : Except DWORD Unit
  internetConnectA : Except DWORD Unit
  httpOpenRequestA : (url : List BYTE) → Except DWORD Unit
  getTickCount64 : BitVec 64
  /-- What `GetIPAddress` downloads, unless its request fails. -/
  ipResponse : Option (List BYTE)
  /-- What the file holds, if it opens. -/
  screenshotFile : (filePath : List BYTE) → Option (List BYTE)
  httpSendRequestA : Request → Except DWORD Unit
  /-- What `InternetReadFile` reads, until it fails. -/
  internetReadFile : List (List BYTE)

/-- `PostMultipartRequest`. -/
def postMultipartRequest (c : MultipartCalls) (url hwid filePath : List BYTE) :
    Tracked Internet Empty (List BYTE) := do
  if let .error code := c.internetOpenA then
    return bytes "Failed to open internet session: " ++ to_string code.toNat
  acquire Internet.hSession
  if let .error code := c.internetConnectA then
    release Internet.hSession
    return bytes "Failed to connect to Discord: " ++ to_string code.toNat
  acquire Internet.hConnect
  if let .error code := c.httpOpenRequestA url then
    release Internet.hConnect
    release Internet.hSession
    return bytes "Failed to open HTTP request: " ++ to_string code.toNat
  acquire Internet.hRequest
  match c.screenshotFile filePath with
  | none =>
    release Internet.hRequest
    release Internet.hConnect
    release Internet.hSession
    return bytes "Failed to open screenshot file: " ++ filePath
  | some fileData =>
    let request := multipartRequest c.getTickCount64 hwid (getIPAddress c.ipResponse) fileData
    if let .error code := c.httpSendRequestA request then
      release Internet.hRequest
      release Internet.hConnect
      release Internet.hSession
      return bytes "Failed to send request: " ++ to_string code.toNat
    let response := (c.internetReadFile.takeWhile (· ≠ [])).flatten
    release Internet.hRequest
    release Internet.hConnect
    release Internet.hSession
    return response

/-- Every handle of the request has been closed once when it returns. -/
theorem postMultipartRequest_closedOnce (c : MultipartCalls) (url hwid filePath : List BYTE) :
    ClosedOnce (postMultipartRequest c url hwid filePath).exec.2 := by
  obtain ⟨opens, connects, requests, tick, ip, file, sends, chunks⟩ := c
  intro h
  cases opens <;> cases connects <;> cases hr : requests url <;> cases hf : file filePath
  case ok.ok.ok.some data =>
    cases hs : sends (multipartRequest tick hwid (getIPAddress ip) data) <;> cases h <;>
      simp [postMultipartRequest, Tracked.exec, hr, hf, hs, Event.handle]
  all_goals
    cases h <;> simp [postMultipartRequest, Tracked.exec, hr, hf, Event.handle]

/-! ## Decimal numbers -/

/-- The number that a string of decimal digits shows. -/
def readDecimal (s : List BYTE) : Option Nat :=
  let cs := s.map fun b => Char.ofNat b.toNat
  if cs ≠ [] ∧ cs.all Char.isDigit then some (Nat.ofDigitChars 10 cs 0) else none

theorem to_string_eq (n : Nat) :
    to_string n = (Nat.toDigits 10 n).map fun c => BitVec.ofNat 8 c.toNat := by
  rw [to_string, bytes, Nat.toString_eq_ofList_toDigits, String.toList_ofList]

theorem isDigit_of_mem_toDigits {n : Nat} {c : Char} (h : c ∈ Nat.toDigits 10 n) :
    48 ≤ c.toNat ∧ c.toNat ≤ 57 := by
  have := Nat.isDigit_of_mem_toDigits (by decide) (by decide) h
  simpa [Char.isDigit, UInt32.le_iff_toNat_le] using this

/-- A number is read back. -/
theorem readDecimal_to_string (n : Nat) : readDecimal (to_string n) = some n := by
  have hchars : (to_string n).map (fun b => Char.ofNat b.toNat) = Nat.toDigits 10 n := by
    rw [to_string_eq, List.map_map]
    refine (List.map_congr_left fun c hc => ?_).trans (List.map_id _)
    have hd := isDigit_of_mem_toDigits hc
    simp only [Function.comp_apply, BitVec.toNat_ofNat]
    rw [Nat.mod_eq_of_lt (by omega)]
    exact Char.ofNat_toNat c
  have hdigits : (Nat.toDigits 10 n).all Char.isDigit = true :=
    List.all_eq_true.mpr fun c hc => Nat.isDigit_of_mem_toDigits (by decide) (by decide) hc
  unfold readDecimal
  simp only [hchars]
  rw [if_pos ⟨Nat.toDigits_ne_nil, hdigits⟩, Nat.ofDigitChars_ten_toDigits]

/-- The digits of a number. -/
theorem digit_of_mem_to_string {n : Nat} {b : BYTE} (h : b ∈ to_string n) :
    0x30 ≤ b ∧ b ≤ 0x39 := by
  rw [to_string_eq] at h
  obtain ⟨c, hc, rfl⟩ := List.mem_map.mp h
  have hd := isDigit_of_mem_toDigits hc
  have hn : (BitVec.ofNat 8 c.toNat).toNat = c.toNat := by
    rw [BitVec.toNat_ofNat, Nat.mod_eq_of_lt (by omega)]
  refine ⟨?_, ?_⟩ <;> rw [BitVec.le_def, hn]
  · exact hd.1
  · exact hd.2

theorem notMem_to_string {n : Nat} {b : BYTE} (h : b < 0x30 ∨ 0x39 < b) : b ∉ to_string n := by
  intro hb
  have := digit_of_mem_to_string hb
  bv_omega

/-- A boundary consists of dashes and digits. -/
theorem notMem_multipartBoundary {tick : BitVec 64} {b : BYTE} (hd : b ≠ 0x2D)
    (h : b < 0x30 ∨ 0x39 < b) : b ∉ multipartBoundary tick := by
  intro hb
  rcases List.mem_append.mp hb with hb | hb
  · exact hd (List.eq_of_mem_replicate (n := 24) hb)
  · exact notMem_to_string h hb

/-! ## Decoding -/

/-- The value of a header field. -/
def fieldValue (name : String) (headers : List BYTE) : Option (List BYTE) :=
  let start := bytes name ++ bytes ": "
  ((Multipart.readPart headers).header.find? fun l => start.isPrefixOf l).map (·.drop start.length)

/-- The boundary that the `Content-Type` field announces. -/
def announcedBoundary (headers : List BYTE) : Option (List BYTE) := do
  let value ← fieldValue "Content-Type" headers
  let (_, boundary) ← Multipart.cutAt (bytes "boundary=") value
  return boundary.takeWhile (· ≠ 0x3B)

/-- The length that the `Content-Length` field announces. -/
def announcedLength (headers : List BYTE) : Option Nat :=
  (fieldValue "Content-Length" headers).bind readDecimal

/-- The contents of the parts of a request. -/
def Request.contents (r : Request) : Option (List (List BYTE)) :=
  (announcedBoundary r.headers).bind fun boundary =>
    (Multipart.parse boundary r.body).map (·.map Multipart.Part.content)

/-- The parts that the body is to carry. -/
def multipartParts (json fileData : List BYTE) : List Multipart.Part :=
  [⟨[bytes "Content-Disposition: form-data; name=\"payload_json\""], json⟩,
    ⟨[bytes "Content-Disposition: form-data; name=\"file1\"; filename=\"Yume.png\"",
      bytes "Content-Type: image/png"], fileData⟩]

theorem multipartBody_eq (boundary json fileData : List BYTE) :
    multipartBody boundary json fileData =
      Multipart.encode boundary (multipartParts json fileData) := by
  have hcrlf : bytes "\r\n" = Multipart.crlf := rfl
  have hdash : bytes "--" = [0x2D, 0x2D] := rfl
  have hclose : "--\r\n" = "--" ++ "\r\n" := by simp
  have hjson : "Content-Disposition: form-data; name=\"payload_json\"\r\n\r\n" =
      "Content-Disposition: form-data; name=\"payload_json\"" ++ "\r\n" ++ "\r\n" := by simp
  have hfile : "Content-Disposition: form-data; name=\"file1\"; filename=\"Yume.png\"\r\n" =
      "Content-Disposition: form-data; name=\"file1\"; filename=\"Yume.png\"" ++ "\r\n" := by simp
  have htype : "Content-Type: image/png\r\n\r\n" =
      "Content-Type: image/png" ++ "\r\n" ++ "\r\n" := by simp
  rw [multipartBody, hclose, hjson, hfile, htype]
  simp only [bytes_append, hcrlf, hdash, multipartParts, Multipart.encode, Multipart.Part.text,
    List.flatMap_cons, List.flatMap_nil, List.append_assoc, List.append_nil]

theorem multipartParts_headers (json fileData : List BYTE) :
    ∀ p ∈ multipartParts json fileData, ∀ l ∈ p.header, Multipart.IsHeaderLine l := by
  have hlines : ∀ l ∈ (multipartParts [] []).flatMap Multipart.Part.header,
      Multipart.IsHeaderLine l := by decide +kernel
  intro p hp l hl
  refine hlines l (List.mem_flatMap.mpr ?_)
  simp only [multipartParts, List.mem_cons, List.not_mem_nil, or_false] at hp
  rcases hp with rfl | rfl
  · exact ⟨⟨_, []⟩, List.mem_cons_self .., hl⟩
  · exact ⟨⟨_, []⟩, List.mem_cons_of_mem _ (List.mem_cons_self ..), hl⟩

/-! ## The announced values -/

/-- The two lines of the header. -/
theorem readPart_headers (tick : BitVec 64) (body : List BYTE) :
    (Multipart.readPart (multipartHeaders (multipartBoundary tick) body)).header =
      [bytes "Content-Type: multipart/form-data; boundary=" ++ multipartBoundary tick,
        bytes "Content-Length: " ++ to_string body.length] := by
  have htext : multipartHeaders (multipartBoundary tick) body =
      Multipart.Part.text ⟨[bytes "Content-Type: multipart/form-data; boundary=" ++
        multipartBoundary tick, bytes "Content-Length: " ++ to_string body.length], []⟩ := by
    have hcrlf : bytes "\r\n" = Multipart.crlf := rfl
    have hend : bytes "\r\n\r\n" = Multipart.crlf ++ Multipart.crlf := rfl
    simp only [multipartHeaders, hcrlf, hend, Multipart.Part.text, List.flatMap_cons,
      List.flatMap_nil, List.append_assoc, List.append_nil]
  have hlines : ∀ l ∈ [bytes "Content-Type: multipart/form-data; boundary=" ++
      multipartBoundary tick, bytes "Content-Length: " ++ to_string body.length],
      Multipart.IsHeaderLine l := by
    intro l hl
    rcases List.mem_cons.mp hl with rfl | hl
    · exact Multipart.IsHeaderLine.append (by decide +kernel)
        (notMem_multipartBoundary (by decide) (by decide))
    · rw [List.mem_singleton.mp hl]
      exact Multipart.IsHeaderLine.append (by decide +kernel) (notMem_to_string (by decide))
  rw [htext, Multipart.readPart_text hlines]

theorem announcedBoundary_eq (tick : BitVec 64) (body : List BYTE) :
    announcedBoundary (multipartHeaders (multipartBoundary tick) body) =
      some (multipartBoundary tick) := by
  have hvalue : fieldValue "Content-Type" (multipartHeaders (multipartBoundary tick) body) =
      some (bytes "multipart/form-data; " ++ bytes "boundary=" ++ multipartBoundary tick) := by
    rw [fieldValue, readPart_headers]
    rfl
  have hcut : Multipart.cutAt (bytes "boundary=")
      (bytes "multipart/form-data; " ++ bytes "boundary=" ++ multipartBoundary tick) =
      some (bytes "multipart/form-data; ", multipartBoundary tick) :=
    Multipart.cutAt_append (by decide +kernel) (by decide +kernel) _
  have hall : (multipartBoundary tick).takeWhile (· ≠ 0x3B) = multipartBoundary tick := by
    rw [List.takeWhile_eq_self_iff]
    intro b hb
    have : b ≠ 0x3B := by
      rintro rfl
      exact notMem_multipartBoundary (by decide) (by decide) hb
    simpa using this
  rw [announcedBoundary, hvalue]
  simp only [Option.bind_eq_bind, Option.bind_some, hcut, hall]
  rfl

theorem announcedLength_eq (tick : BitVec 64) (body : List BYTE) :
    announcedLength (multipartHeaders (multipartBoundary tick) body) = some body.length := by
  have hvalue : fieldValue "Content-Length" (multipartHeaders (multipartBoundary tick) body) =
      some (to_string body.length) := by
    rw [fieldValue, readPart_headers]
    rfl
  rw [announcedLength, hvalue, Option.bind_some, readDecimal_to_string]

/-! ## The round trip -/

/-- The delimiter of the request of a tick: a line end, two dashes and the boundary. -/
def multipartDelimiter (tick : BitVec 64) : List BYTE := bytes "\r\n--" ++ multipartBoundary tick

/-- When the contents come back. -/
theorem contents_eq_iff (tick : BitVec 64) (hwid ip fileData : List BYTE) :
    (multipartRequest tick hwid ip fileData).contents = some [jsonPart hwid ip, fileData] ↔
      ¬ multipartDelimiter tick <:+: jsonPart hwid ip ∧
        ¬ multipartDelimiter tick <:+: bytes "\r\n" ++ fileData := by
  have hdelim : multipartDelimiter tick = Multipart.delimiter (multipartBoundary tick) := rfl
  have hjson : (jsonPart hwid ip).head? ≠ some 0x2D := by
    rw [jsonPart, List.append_assoc, List.append_assoc, List.append_assoc]
    exact fun h => absurd (Option.some.inj h) (by decide)
  have hcr : (0x0D : BYTE) ∉ multipartBoundary tick :=
    notMem_multipartBoundary (by decide) (by decide)
  have hiff := Multipart.parse_encode_iff hcr (multipartParts_headers (jsonPart hwid ip) fileData)
  have hcontents : (multipartRequest tick hwid ip fileData).contents =
      (Multipart.parse (multipartBoundary tick) (Multipart.encode (multipartBoundary tick)
        (multipartParts (jsonPart hwid ip) fileData))).map (·.map Multipart.Part.content) := by
    unfold Request.contents multipartRequest
    simp only [announcedBoundary_eq, Option.bind_some, multipartBody_eq]
  rw [hcontents, hdelim, ← Multipart.infix_crlf_append_iff hjson]
  refine hiff.trans ?_
  simp only [multipartParts, List.forall_mem_cons]
  exact and_congr_right fun _ => ⟨fun h => h.1, fun h => ⟨h, fun _ h => by cases h⟩⟩

/-- The request decodes to the JSON part and the file's bytes exactly if the delimiter occurs
neither in the one nor in a line end with the other behind it; its length is the one announced. -/
theorem multipart_decodes_iff (tick : BitVec 64) (hwid ip fileData : List BYTE) :
    ((multipartRequest tick hwid ip fileData).contents = some [jsonPart hwid ip, fileData] ↔
      ¬ multipartDelimiter tick <:+: jsonPart hwid ip ∧
        ¬ multipartDelimiter tick <:+: bytes "\r\n" ++ fileData) ∧
    announcedLength (multipartRequest tick hwid ip fileData).headers =
      some (multipartRequest tick hwid ip fileData).body.length :=
  ⟨contents_eq_iff tick hwid ip fileData, announcedLength_eq tick _⟩

/-- A file that begins with the boundary line of tick 0 comes back empty. -/
theorem not_decodes_boundaryLine :
    (multipartRequest 0 [] (bytes "Unknown") (bytes "--------------------------0")).contents ≠
      some [jsonPart [] (bytes "Unknown"), bytes "--------------------------0"] := by
  rw [Ne, contents_eq_iff]
  exact fun h => h.2 ⟨[], [], by decide +kernel⟩

end Bossran
