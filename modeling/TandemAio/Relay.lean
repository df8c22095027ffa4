import Mathlib.Data.List.DropRight
import TandemAio.Reasoning.Base64
import TandemAio.Reasoning.Response
import TandemAio.Reasoning.Text

/-!
# The response that reaches the client

What the hosted app writes to its socket is split by the node into status, headers and body, handed
back to the server, and returned by `load_balance`.
-/

namespace TandemAio

open Reasoning Reasoning.Http

/-! ## The node -/

/-- `char::is_whitespace` -/
def isWhitespace (c : Char) : Bool :=
  c.toNat ∈ [0x20, 0x85, 0xa0, 0x1680, 0x2028, 0x2029, 0x202f, 0x205f, 0x3000] ||
    (0x09 ≤ c.toNat && c.toNat ≤ 0x0d) || (0x2000 ≤ c.toNat && c.toNat ≤ 0x200a)

/-- `str::trim` -/
def trimText (text : List Char) : List Char :=
  ((text.dropWhile isWhitespace).reverse.dropWhile isWhitespace).reverse

def splitWhitespace (line : List Char) : List (List Char) :=
  (line.splitOnP isWhitespace).filter (· ≠ [])

/-- `line.split_once(':')` -/
def splitOnceColon (line : List Char) : Option (List Char × List Char) :=
  match line.dropWhile (· != ':') with
  | [] => none
  | _ :: value => some (line.takeWhile (· != ':'), value)

/-- The first index where `needle` stands in `haystack`. -/
def findSubslice (haystack needle : List UInt8) : Option Nat :=
  if needle = [] ∨ haystack.length < needle.length then none
  else (List.range (haystack.length - needle.length + 1)).find? fun i ↦
    (haystack.drop i).take needle.length == needle

/-- `code.parse::<u16>()` -/
def parseU16 (code : List Char) : Option Nat :=
  let digits := if code.head? = some '+' then code.tail else code
  if digits ≠ [] ∧ digits.all Char.isDigit ∧ Nat.ofDigitChars 10 digits 0 < 65536 then
    some (Nat.ofDigitChars 10 digits 0)
  else none

def parseStatusCode (statusLine : List Char) : Option Nat :=
  let parts := splitWhitespace statusLine
  parseU16 (parts.getD 1 [])

structure HttpResponse where
  status : Nat
  headers : List (String × String)
  body : List UInt8

/-- The header of a line that has a colon. -/
def headerOf (line : List Char) : Option (String × String) :=
  (splitOnceColon line).map fun (name, value) ↦
    (String.ofList (trimText name), String.ofList (trimText value))

def parseHttpResponse (raw : List UInt8) : Option HttpResponse :=
  match findSubslice raw [13, 10, 13, 10] with
  | none => none
  | some splitAt =>
    let head := raw.take splitAt
    let body := raw.drop (splitAt + 4)
    let lines := splitCrlf (decodeFrom 0 head)
    (parseStatusCode (lines.headD [])).map fun status ↦
      ⟨status, lines.tail.filterMap headerOf, body⟩

/-- The response of `handle_request` to what `proxy_request` made of the bytes. -/
def proxiedResponse (proxied : Option HttpResponse) : HttpResponse :=
  proxied.getD ⟨502, [], utf8 "the app could not handle the request"⟩

/-! ## The server -/

/-- The body of a request to `/nodes/serve/response/<req_id>`, which is queued for `load_balance`
as it is. -/
structure ResponsePayload where
  status : Nat
  headers : List (String × String)
  bodyB64 : List Char

def sendResponse (response : HttpResponse) : ResponsePayload :=
  ⟨response.status, response.headers, Base64.encode response.body⟩

section Server

-- `str.lower`
variable (lower : String → String)

/-- `headers[name] = value` on werkzeug's headers: the value takes the place of the first one with
the name, and of the others that have it. -/
def setHeader (headers : List (String × String)) (name value : String) : List (String × String) :=
  let same (header : String × String) : Bool := lower header.1 == lower name
  match headers.dropWhile (!same ·) with
  | [] => headers ++ [(name, value)]
  | _ :: rest => headers.takeWhile (!same ·) ++ (name, value) :: rest.filter (!same ·)

/-- A header that `load_balance` leaves to Flask. -/
def setByFlask (name : String) : Bool :=
  lower name ∈ ["content-length", "transfer-encoding", "connection"]

structure FlaskResponse where
  status : Nat
  headers : List (String × String)
  data : List UInt8

/-- `Response(body, status=...)` -/
def flaskResponse (body : List UInt8) (status : Nat) : FlaskResponse where
  status := status
  headers := [("Content-Type", "text/html; charset=utf-8"),
    ("Content-Length", toString body.length)]
  data := body

def relayHeaders (headers : List (String × String)) (initial : List (String × String)) :
    List (String × String) :=
  headers.foldl (fun relayed (name, value) ↦
    if setByFlask lower name then relayed else setHeader lower relayed name value) initial

/-- `load_balance` from `wait_for_response` on. -/
def loadBalanceReply (response : ResponsePayload) : Option FlaskResponse :=
  (Base64.decode response.bodyB64).map fun body ↦
    let reply := flaskResponse body response.status
    { reply with headers := relayHeaders lower response.headers reply.headers }

/-- What the client gets of the bytes that the app writes. -/
def clientReply (raw : List UInt8) : Option FlaskResponse :=
  loadBalanceReply lower (sendResponse (proxiedResponse (parseHttpResponse raw)))

/-- The client gets the status and the body of the response. -/
def RelaysBody (raw : List UInt8) (m : Response) : Prop :=
  ∃ reply, clientReply lower raw = some reply ∧ reply.status = m.status ∧ reply.data = m.body

end Server

/-! ## The head -/

/-- The first blank line is found. -/
theorem findSubslice_blank {raw head rest : List UInt8} (hraw : raw = head ++ (blankLine ++ rest))
    (hfirst : ∀ k < head.length, (raw.drop k).take 4 ≠ blankLine) :
    findSubslice raw [13, 10, 13, 10] = some head.length := by
  have hlen : raw.length = head.length + (4 + rest.length) := by
    rw [hraw, List.length_append, List.length_append]
    rfl
  unfold findSubslice
  rw [if_neg]
  · rw [List.find?_range_eq_some]
    refine ⟨?_, ?_, fun k hk ↦ ?_⟩
    · rw [hraw, List.drop_left]
      simp [blankLine]
    · rw [List.mem_range, List.length_cons]
      simp only [List.length_cons, List.length_nil]
      omega
    · simpa [blankLine] using hfirst k hk
  · rintro (hnil | hshort)
    · cases hnil
    · simp only [List.length_cons, List.length_nil] at hshort
      omega

theorem parseHttpResponse_eq {raw head rest : List UInt8} (hraw : raw = head ++ (blankLine ++ rest))
    (hfirst : ∀ k < head.length, (raw.drop k).take 4 ≠ blankLine) :
    parseHttpResponse raw =
      (parseStatusCode ((splitCrlf (decodeFrom 0 head)).headD [])).map fun status ↦
        ⟨status, (splitCrlf (decodeFrom 0 head)).tail.filterMap headerOf, rest⟩ := by
  have hbody : raw.drop (head.length + 4) = rest := by
    rw [hraw, ← List.append_assoc]
    exact List.drop_left' (List.length_append)
  unfold parseHttpResponse
  rw [findSubslice_blank hraw hfirst]
  dsimp only
  rw [hbody, hraw, List.take_left]

/-! ## The status line -/

/-- The texts of a status line. -/
structure StatusTexts : Prop where
  version : (utf8 "HTTP/1.1 ").map latin1Char = "HTTP/1.1".toList ++ [' ']
  ascii : (utf8 "HTTP/1.1 ").all (· < 128)
  word : "HTTP/1.1".toList.all fun c ↦ !isWhitespace c && c != '\r'
  space : isWhitespace ' '

theorem statusTexts : StatusTexts := by
  constructor <;> decide +kernel

/-- A digit of a status as a byte. -/
theorem digitByte_spec {b : UInt8} (h : 48 ≤ b ∧ b ≤ 57) :
    b < 128 ∧ isWhitespace (latin1Char b) = false ∧ latin1Char b ≠ '\r' ∧ latin1Char b ≠ '+' ∧
      (latin1Char b).isDigit = true ∧ (latin1Char b).toNat ≤ 57 := by
  revert h
  apply forall_byte (P := fun b ↦ 48 ≤ b ∧ b ≤ 57 → b < 128 ∧
    isWhitespace (latin1Char b) = false ∧ latin1Char b ≠ '\r' ∧ latin1Char b ≠ '+' ∧
      (latin1Char b).isDigit = true ∧ (latin1Char b).toNat ≤ 57)
  decide +kernel

theorem decimal_spec {digits : List UInt8} {n : Nat} (h : decimal digits = some n) :
    digits ≠ [] ∧ (∀ b ∈ digits, 48 ≤ b ∧ b ≤ 57) ∧
      Nat.ofDigitChars 10 (digits.map latin1Char) 0 = n := by
  unfold decimal at h
  split at h
  · rename_i hdigits
    cases h
    exact ⟨hdigits.1, by simpa using hdigits.2, rfl⟩
  · cases h

/-- Three digits are read as the status. -/
theorem parseU16_digits {digits : List UInt8} {n : Nat} (hlen : digits.length = 3)
    (h : decimal digits = some n) : parseU16 (digits.map latin1Char) = some n := by
  obtain ⟨hne, hdigits, hvalue⟩ := decimal_spec h
  obtain ⟨a, b, c, rfl⟩ := List.length_eq_three.mp hlen
  have ha := digitByte_spec (hdigits a (by simp))
  have hb := digitByte_spec (hdigits b (by simp))
  have hc := digitByte_spec (hdigits c (by simp))
  have hsmall : n < 65536 := by
    have hsum : ((latin1Char a).toNat - 48) * 100 + ((latin1Char b).toNat - 48) * 10 +
        ((latin1Char c).toNat - 48) = n := by
      rw [← hvalue]
      simp [Nat.ofDigitChars]
      omega
    omega
  have hsign : ([a, b, c].map latin1Char).head? ≠ some '+' := fun hplus ↦
    ha.2.2.2.1 (Option.some_inj.mp hplus)
  unfold parseU16
  dsimp only
  rw [if_neg hsign, if_pos ⟨by simp, by simp [ha, hb, hc], by rw [hvalue]; exact hsmall⟩, hvalue]

/-- The status of a response is what the node reads from its first line. -/
theorem parseStatusCode_head {first after : List UInt8} {status : Nat}
    (h : statusLine first = some status) :
    parseStatusCode ((splitCrlf (decodeFrom 0 (first ++ after))).headD []) = some status := by
  obtain ⟨digits, reason, rfl, hlen, hdecimal⟩ := statusLine_spec h
  obtain ⟨hne, hdigits, -⟩ := decimal_spec hdecimal
  have hspec : ∀ b ∈ digits, b < 128 ∧ isWhitespace (latin1Char b) = false ∧
      latin1Char b ≠ '\r' := fun b hb ↦
    ⟨(digitByte_spec (hdigits b hb)).1, (digitByte_spec (hdigits b hb)).2.1,
      (digitByte_spec (hdigits b hb)).2.2.1⟩
  have hword := List.all_eq_true.mp statusTexts.word
  -- the line up to the space after the status is ASCII
  have hascii : Ascii (utf8 "HTTP/1.1 " ++ (digits ++ [32])) := by
    intro b hb
    simp only [List.mem_append, List.mem_singleton] at hb
    rcases hb with hb | hb | rfl
    · exact of_decide_eq_true (List.all_eq_true.mp statusTexts.ascii b hb)
    · exact (hspec b hb).1
    · decide
  have hsplit : utf8 "HTTP/1.1 " ++ (digits ++ 32 :: reason) ++ after =
      [] ++ ((utf8 "HTTP/1.1 " ++ (digits ++ [32])) ++ (reason ++ after)) := by simp
  have hchars : (utf8 "HTTP/1.1 " ++ (digits ++ [32])).map latin1Char =
      "HTTP/1.1".toList ++ ' ' :: (digits.map latin1Char ++ [' ']) := by
    rw [List.map_append, List.map_append, statusTexts.version, List.append_assoc]
    rfl
  have hcr : '\r' ∉ "HTTP/1.1".toList ++ ' ' :: (digits.map latin1Char ++ [' ']) := by
    simp only [List.mem_append, List.mem_cons, List.mem_map, List.not_mem_nil, or_false]
    rintro (hc | hc | ⟨b, hb, hc⟩ | hc)
    · have := hword _ hc
      simp at this
    · cases hc
    · exact (hspec b hb).2.2 hc
    · cases hc
  obtain ⟨line, lines, -, hlines⟩ := splitCrlf_append hcr (decodeFrom 0 (reason ++ after))
  have hdecode : decodeFrom 0 (utf8 "HTTP/1.1 " ++ (digits ++ 32 :: reason) ++ after) =
      "HTTP/1.1".toList ++ ' ' :: (digits.map latin1Char ++ [' ']) ++
        decodeFrom 0 (reason ++ after) := by
    rw [hsplit, decodeFrom_append_ascii [] _ (by simp) hascii, hchars]
    rfl
  have hwords : splitWhitespace
      ("HTTP/1.1".toList ++ ' ' :: (digits.map latin1Char ++ [' ']) ++ line) =
      "HTTP/1.1".toList :: digits.map latin1Char :: splitWhitespace line := by
    have hversion : ∀ c ∈ "HTTP/1.1".toList, isWhitespace c = false := by
      intro c hc
      have := hword c hc
      simp only [Bool.and_eq_true, Bool.not_eq_true'] at this
      exact this.1
    have hstatus : ∀ c ∈ digits.map latin1Char, isWhitespace c = false := by
      intro c hc
      obtain ⟨b, hb, rfl⟩ := List.mem_map.mp hc
      exact (hspec b hb).2.1
    have hcons : "HTTP/1.1".toList ++ ' ' :: (digits.map latin1Char ++ [' ']) ++ line =
        "HTTP/1.1".toList ++ ' ' :: (digits.map latin1Char ++ ' ' :: line) := by simp
    unfold splitWhitespace
    rw [hcons, List.splitOnP_append_cons_of_forall_mem hversion _ statusTexts.space,
      List.splitOnP_append_cons_of_forall_mem hstatus _ statusTexts.space,
      List.filter_cons_of_pos (by decide), List.filter_cons_of_pos (by simpa using hne)]
  rw [hdecode, hlines, List.headD_cons]
  unfold parseStatusCode
  rw [hwords]
  exact parseU16_digits hlen hdecimal

/-- The client gets the status and the body of a response exactly when the response has no body or
its body is not sent in chunks. -/
theorem relays_body_iff (lower : String → String) {toHead : Bool} {raw : List UInt8} {m : Response}
    (h : parseResponse toHead raw = some m) :
    RelaysBody lower raw m ↔
      bodiless toHead m.status ∨ ∀ f ∈ m.fields, ¬f.named "transfer-encoding" := by
  obtain ⟨first, after, rest, hraw, hblank, hstatus, hbody⟩ := parseResponse_spec h
  rw [← hbody]
  have hreply : clientReply lower raw = some { flaskResponse rest m.status with
      headers := relayHeaders lower
        ((splitCrlf (decodeFrom 0 (first ++ after))).tail.filterMap headerOf)
        (flaskResponse rest m.status).headers } := by
    unfold clientReply
    rw [parseHttpResponse_eq hraw hblank, parseStatusCode_head hstatus]
    unfold loadBalanceReply sendResponse proxiedResponse
    dsimp only [Option.map_some, Option.getD_some]
    rw [Base64.decode_encode]
    rfl
  constructor
  · rintro ⟨reply, heq, -, hdata⟩
    rw [hreply] at heq
    cases heq
    exact hdata
  · intro hrest
    exact ⟨_, hreply, rfl, hrest⟩

namespace Sample

/-- A body of two bytes that ends with the connection. -/
def plainAnswer : List UInt8 := utf8 "HTTP/1.1 200 OK\r\n\r\nhi"

/-- The same body in one chunk. -/
def chunkedAnswer : List UInt8 :=
  utf8 "HTTP/1.1 200 OK\r\nTransfer-Encoding: chunked\r\n\r\n2\r\nhi\r\n0\r\n\r\n"

def chunkedResponse : Response :=
  ⟨200, [⟨utf8 "Transfer-Encoding", utf8 "chunked"⟩], utf8 "hi"⟩

end Sample

theorem relays_body_iff_plain :
    RelaysBody (fun name ↦ String.ofList (name.toList.map Char.toLower)) Sample.plainAnswer
      ⟨200, [], utf8 "hi"⟩ := by
  have hparse : parseResponse false Sample.plainAnswer = some ⟨200, [], utf8 "hi"⟩ := by
    decide +kernel
  exact (relays_body_iff _ hparse).mpr (Or.inr fun f hf ↦ absurd hf List.not_mem_nil)

/-- The client gets the chunks as the app wrote them. -/
theorem chunks_relayed : parseResponse false Sample.chunkedAnswer = some Sample.chunkedResponse ∧
    ∀ lower, ¬RelaysBody lower Sample.chunkedAnswer Sample.chunkedResponse := by
  have hparse : parseResponse false Sample.chunkedAnswer = some Sample.chunkedResponse := by
    decide +kernel
  have hraw : (parseHttpResponse Sample.chunkedAnswer).map HttpResponse.body =
      some (utf8 "2\r\nhi\r\n0\r\n\r\n") := by
    decide +kernel
  have hne : utf8 "2\r\nhi\r\n0\r\n\r\n" ≠ utf8 "hi" := by
    decide +kernel
  refine ⟨hparse, fun lower ⟨reply, hreply, _, hdata⟩ ↦ hne ?_⟩
  obtain ⟨response, hresponse, hbody⟩ := Option.map_eq_some_iff.mp hraw
  unfold clientReply loadBalanceReply sendResponse proxiedResponse at hreply
  rw [hresponse] at hreply
  dsimp only [Option.getD_some] at hreply
  rw [Base64.decode_encode, Option.map_some] at hreply
  cases hreply
  rw [← hbody]
  exact hdata

/-! ## Header lines -/

/-- A header line of an app: a name without a colon or white space, and a value on one line. -/
structure HeaderLine where
  name : List UInt8
  value : List UInt8
  name_colon : 58 ∉ name
  name_space : ∀ c ∈ decodeFrom 0 name, isWhitespace c = false
  value_break : 13 ∉ value ∧ 10 ∉ value

def HeaderLine.line (h : HeaderLine) : List UInt8 := h.name ++ 58 :: h.value

/-- What an app writes. -/
structure AppAnswer where
  digits : List UInt8
  reason : List UInt8
  lines : List HeaderLine
  body : List UInt8
  digits_three : digits.length = 3 ∧ ∀ b ∈ digits, 48 ≤ b ∧ b ≤ 57
  reason_break : 13 ∉ reason ∧ 10 ∉ reason

def AppAnswer.statusLine (a : AppAnswer) : List UInt8 :=
  utf8 "HTTP/1.1 " ++ (a.digits ++ 32 :: a.reason)

def AppAnswer.bytes (a : AppAnswer) : List UInt8 :=
  writeLines (a.statusLine :: a.lines.map HeaderLine.line) ++ 13 :: 10 :: a.body

section Headers

-- `str.lower`
variable (lower : String → String)

/-- The name of a line as `load_balance` compares it. -/
def HeaderLine.key (h : HeaderLine) : String := lower (decodeReplace h.name)

/-- The lines that are not left to Flask. -/
def AppAnswer.kept (a : AppAnswer) : List HeaderLine :=
  a.lines.filter fun h ↦ !setByFlask lower (decodeReplace h.name)

variable {lower}

theorem setHeader_filter (headers : List (String × String)) (name value key : String) :
    (setHeader lower headers name value).filter (fun header ↦ lower header.1 == key) =
      if lower name = key then [(name, value)]
      else headers.filter fun header ↦ lower header.1 == key := by
  have hsplit := List.takeWhile_append_dropWhile
    (p := fun header : String × String ↦ !(lower header.1 == lower name)) (l := headers)
  have hbefore : ∀ header ∈ headers.takeWhile (fun header ↦ !(lower header.1 == lower name)),
      lower header.1 ≠ lower name := by
    intro header hmem
    simpa using List.all_eq_true.mp (List.all_takeWhile (l := headers)) header hmem
  -- the entries under the name, before and after the first of them
  have hnone : ∀ l : List (String × String), (∀ header ∈ l, lower header.1 ≠ lower name) →
      l.filter (fun header ↦ lower header.1 == lower name) = [] := fun l hl ↦
    List.filter_eq_nil_iff.mpr fun header hmem heq ↦ hl header hmem (beq_iff_eq.mp heq)
  unfold setHeader
  dsimp only
  cases hdrop : headers.dropWhile (fun header ↦ !(lower header.1 == lower name)) with
  | nil =>
    rw [hdrop, List.append_nil] at hsplit
    rw [hsplit] at hbefore
    rw [List.filter_append]
    by_cases hkey : lower name = key
    · rw [if_pos hkey, ← hkey, hnone headers hbefore]
      simp
    · rw [if_neg hkey]
      simp [hkey]
  | cons first rest =>
    have hfirst : lower first.1 = lower name := by
      have hhead := List.head?_dropWhile_not
        (fun header : String × String ↦ !(lower header.1 == lower name)) headers
      rw [hdrop] at hhead
      simpa using hhead
    rw [hdrop] at hsplit
    rw [List.filter_append, List.filter_cons, List.filter_filter]
    by_cases hkey : lower name = key
    · rw [if_pos hkey, ← hkey, hnone _ hbefore]
      simp
    · have hrest : rest.filter (fun header ↦ (lower header.1 == key) &&
          !(lower header.1 == lower name)) = rest.filter fun header ↦ lower header.1 == key := by
        apply List.filter_congr
        intro header _
        by_cases heq : lower header.1 = key
        · simp [heq, Ne.symm hkey]
        · simp [heq]
      rw [if_neg hkey]
      conv_rhs => rw [← hsplit, List.filter_append, List.filter_cons]
      have hother : (lower name == key) = false := by simpa using hkey
      rw [hrest, hfirst, hother]
      rfl

/-- The client has the last header of a name that is not left to Flask. -/
theorem relayHeaders_filter (headers initial : List (String × String)) {key : String}
    (hkey : key ∉ ["content-length", "transfer-encoding", "connection"]) :
    (relayHeaders lower headers initial).filter (fun header ↦ lower header.1 == key) =
      match (headers.filter fun header ↦ lower header.1 == key).getLast? with
      | none => initial.filter fun header ↦ lower header.1 == key
      | some header => [header] := by
  induction headers generalizing initial with
  | nil => rfl
  | cons header headers ih =>
    obtain ⟨name, value⟩ := header
    have hstep : relayHeaders lower ((name, value) :: headers) initial =
        relayHeaders lower headers
          (if setByFlask lower name then initial else setHeader lower initial name value) := rfl
    have hother : setByFlask lower name → lower name ≠ key := by
      rintro hflask rfl
      exact hkey (of_decide_eq_true hflask)
    rw [hstep, ih, List.filter_cons]
    by_cases hname : lower name = key
    · rw [if_neg fun hflask ↦ hother hflask hname, setHeader_filter, if_pos hname,
        if_pos (by simpa)]
      cases headers.filter (fun header ↦ lower header.1 == key) with
      | nil => rfl
      | cons next others => rw [List.getLast?_cons_cons]; rfl
    · have hinitial : (if setByFlask lower name then initial
          else setHeader lower initial name value).filter (fun header ↦ lower header.1 == key) =
          initial.filter fun header ↦ lower header.1 == key := by
        split
        · rfl
        · rw [setHeader_filter, if_neg hname]
      rw [hinitial, if_neg (by simpa)]

/-! ### What the node makes of the lines -/

/-- The header that the node reads from a line. -/
def HeaderLine.header (h : HeaderLine) : String × String :=
  (decodeReplace h.name, String.ofList (trimText (decodeFrom 0 h.value)))

theorem HeaderLine.headerOf_line (h : HeaderLine) :
    headerOf (decodeFrom 0 h.line) = some h.header := by
  have hcolon : latin1Char 58 = ':' := by decide
  have hname : ∀ c ∈ decodeFrom 0 h.name, (c != ':') = true := by
    intro c hc
    simp only [bne_iff_ne, ne_eq]
    rintro rfl
    rw [← hcolon] at hc
    exact h.name_colon (mem_of_mem_decodeFrom (by decide) hc)
  have hdrop : (decodeFrom 0 h.line).dropWhile (· != ':') = ':' :: decodeFrom 0 h.value := by
    unfold HeaderLine.line
    rw [decodeFrom_append_low _ _ (by decide), hcolon, List.dropWhile_append_of_pos hname]
    rfl
  have htake : (decodeFrom 0 h.line).takeWhile (· != ':') = decodeFrom 0 h.name := by
    unfold HeaderLine.line
    rw [decodeFrom_append_low _ _ (by decide), hcolon, List.takeWhile_append_of_pos hname]
    simp
  have htrim : trimText (decodeFrom 0 h.name) = decodeFrom 0 h.name := by
    have hself : ∀ text : List Char, (∀ c ∈ text, isWhitespace c = false) →
        text.dropWhile isWhitespace = text := fun text htext ↦
      dropWhile_eq_self fun c hc ↦ by simp [htext c (List.mem_of_head? hc)]
    unfold trimText
    rw [hself _ h.name_space,
      hself _ fun c hc ↦ h.name_space c (List.mem_reverse.mp hc), List.reverse_reverse]
  unfold headerOf splitOnceColon
  rw [hdrop, htake]
  dsimp only [Option.map_some]
  rw [htrim]
  rfl

theorem HeaderLine.line_ok (h : HeaderLine) : h.line ≠ [] ∧ 13 ∉ h.line := by
  have hspace : isWhitespace (latin1Char 13) = true := by decide
  unfold HeaderLine.line
  refine ⟨by simp, fun hcr ↦ ?_⟩
  rcases List.mem_append.mp hcr with hcr | hcr
  · rw [h.name_space _ (mem_decodeFrom (by decide) hcr)] at hspace
    cases hspace
  · rcases List.mem_cons.mp hcr with hcr | hcr
    · exact absurd hcr (by decide)
    · exact h.value_break.1 hcr

theorem AppAnswer.statusLine_ok (a : AppAnswer) : a.statusLine ≠ [] ∧ 13 ∉ a.statusLine := by
  have hversion : (13 : UInt8) ∉ utf8 "HTTP/1.1 " := by decide +kernel
  unfold AppAnswer.statusLine
  refine ⟨by simp, fun hcr ↦ ?_⟩
  rcases List.mem_append.mp hcr with hcr | hcr
  · exact hversion hcr
  · rcases List.mem_append.mp hcr with hcr | hcr
    · exact absurd (a.digits_three.2 _ hcr).1 (by decide)
    · rcases List.mem_cons.mp hcr with hcr | hcr
      · exact absurd hcr (by decide)
      · exact a.reason_break.1 hcr

theorem AppAnswer.parse (a : AppAnswer) : ∃ status,
    parseHttpResponse a.bytes = some ⟨status, a.lines.map HeaderLine.header, a.body⟩ := by
  obtain ⟨status, hstatus⟩ : ∃ status, decimal a.digits = some status := by
    unfold decimal
    rw [if_pos]
    · exact ⟨_, rfl⟩
    · refine ⟨fun hnil ↦ ?_, by simpa using a.digits_three.2⟩
      have hlen := a.digits_three.1
      rw [hnil] at hlen
      cases hlen
  have hfirst : Http.statusLine a.statusLine = some status :=
    statusLine_write a.reason a.digits_three.1 hstatus
  have hlines : ∀ line ∈ a.statusLine :: a.lines.map HeaderLine.line, line ≠ [] ∧ 13 ∉ line := by
    intro line hline
    rcases List.mem_cons.mp hline with rfl | hline
    · exact a.statusLine_ok
    · obtain ⟨h, -, rfl⟩ := List.mem_map.mp hline
      exact h.line_ok
  -- the head is the lines joined by CRLF
  have hhead := headLines_writeLines hlines a.body (Nat.lt_succ_self _)
  obtain ⟨after, hbytes, hblank⟩ := headLines_blank hhead
  have hjoined : a.statusLine ++ after =
      [13, 10].intercalate (a.statusLine :: a.lines.map HeaderLine.line) := by
    rw [writeLines_eq, List.append_assoc] at hbytes
    exact (List.append_cancel_right hbytes).symm
  have hdecoded : splitCrlf (decodeFrom 0 (a.statusLine ++ after)) =
      (a.statusLine :: a.lines.map HeaderLine.line).map (decodeFrom 0) := by
    rw [hjoined, decodeFrom_intercalate]
    apply splitCrlf_intercalate (by simp)
    intro line hline hcr
    obtain ⟨bytes, hmem, rfl⟩ := List.mem_map.mp hline
    exact (hlines bytes hmem).2 (mem_of_mem_decodeFrom (by decide) hcr)
  refine ⟨status, ?_⟩
  unfold AppAnswer.bytes
  rw [parseHttpResponse_eq hbytes hblank, parseStatusCode_head hfirst, hdecoded]
  have hheaders : ((a.lines.map HeaderLine.line).map (decodeFrom 0)).filterMap headerOf =
      a.lines.map HeaderLine.header := by
    rw [List.map_map, List.filterMap_map]
    rw [← List.filterMap_eq_map]
    apply List.filterMap_congr
    intro h _
    exact h.headerOf_line
  rw [List.map_cons, List.tail_cons, hheaders]
  rfl

/-- The client has the last header of each name, or those of the empty reply. -/
theorem AppAnswer.reply (lower : String → String) (a : AppAnswer) :
    ∃ reply, clientReply lower a.bytes = some reply ∧
      ∀ key ∉ ["content-length", "transfer-encoding", "connection"],
        ∃ initial, reply.headers.filter (fun header ↦ lower header.1 == key) =
          match (a.lines.filter fun h ↦ h.key lower == key).getLast? with
          | none => initial
          | some h => [h.header] := by
  obtain ⟨status, hparse⟩ := a.parse
  refine ⟨{ flaskResponse a.body status with
    headers := relayHeaders lower (a.lines.map HeaderLine.header)
      (flaskResponse a.body status).headers }, ?_, fun key hkey ↦ ?_⟩
  · unfold clientReply
    rw [hparse]
    unfold loadBalanceReply sendResponse proxiedResponse
    dsimp only [Option.getD_some]
    rw [Base64.decode_encode]
    rfl
  · refine ⟨(flaskResponse a.body status).headers.filter fun header ↦ lower header.1 == key, ?_⟩
    rw [relayHeaders_filter _ _ hkey]
    have hfilter : (a.lines.map HeaderLine.header).filter (fun header ↦ lower header.1 == key) =
        (a.lines.filter fun h ↦ h.key lower == key).map HeaderLine.header := List.filter_map
    rw [hfilter, List.getLast?_map]
    cases (a.lines.filter fun h ↦ h.key lower == key).getLast? <;> rfl

theorem AppAnswer.mem_kept {lower : String → String} {a : AppAnswer} {h : HeaderLine} :
    h ∈ a.kept lower ↔ h ∈ a.lines ∧
      h.key lower ∉ ["content-length", "transfer-encoding", "connection"] := by
  unfold AppAnswer.kept setByFlask HeaderLine.key
  rw [List.mem_filter, Bool.not_eq_true', decide_eq_false_iff_not]

/-- No name occurs twice among the lines that are not left to Flask. -/
theorem AppAnswer.nodup_iff (lower : String → String) (a : AppAnswer) :
    ((a.kept lower).map (HeaderLine.key lower)).Nodup ↔
      ∀ key ∉ ["content-length", "transfer-encoding", "connection"],
        (a.lines.filter fun h ↦ h.key lower == key).length ≤ 1 := by
  have hcount : ∀ key, ((a.kept lower).map (HeaderLine.key lower)).count key =
      ((a.kept lower).filter fun h ↦ h.key lower == key).length := by
    intro key
    rw [List.count_eq_countP, List.countP_map, List.countP_eq_length_filter]
    rfl
  have hkept : ∀ key ∉ ["content-length", "transfer-encoding", "connection"],
      (a.kept lower).filter (fun h ↦ h.key lower == key) =
        a.lines.filter fun h ↦ h.key lower == key := by
    intro key hkey
    unfold AppAnswer.kept
    rw [List.filter_filter]
    apply List.filter_congr
    intro h _
    by_cases heq : h.key lower = key
    · have hflask : setByFlask lower (decodeReplace h.name) = false := by
        unfold setByFlask
        rw [decide_eq_false_iff_not]
        exact fun hmem ↦ hkey (heq ▸ hmem)
      rw [hflask]
      simp
    · simp [heq]
  rw [List.nodup_iff_count_le_one]
  constructor
  · intro h key hkey
    rw [← hkept key hkey, ← hcount]
    exact h key
  · intro h key
    rw [hcount]
    by_cases hkey : key ∈ ["content-length", "transfer-encoding", "connection"]
    · have hnil : (a.kept lower).filter (fun h ↦ h.key lower == key) = [] := by
        rw [List.filter_eq_nil_iff]
        intro line hline heq
        exact (AppAnswer.mem_kept.mp hline).2 (beq_iff_eq.mp heq ▸ hkey)
      rw [hnil]
      exact Nat.zero_le 1
    · rw [hkept key hkey]
      exact h key hkey

end Headers

namespace Sample

end Sample

end TandemAio
