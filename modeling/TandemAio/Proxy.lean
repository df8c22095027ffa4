import TandemAio.Reasoning.Http

/-!
# The request that reaches the hosted app

A request to `/app/<pid>/...` is read by the server, stored, taken by a node and written to the
socket of the app.
-/

namespace TandemAio

open Reasoning Reasoning.Http

/-- `_LB_METHODS` -/
inductive LbMethod where
  | get | post | put | delete | patch | head | options
deriving DecidableEq

def LbMethod.text : LbMethod → String
  | get => "GET"
  | post => "POST"
  | put => "PUT"
  | delete => "DELETE"
  | patch => "PATCH"
  | head => "HEAD"
  | options => "OPTIONS"

/-- A request of a client to `/app/<pid>/<subpath>`, by the bytes it sends.  The body is what
remains when its transfer coding is undone. -/
structure ClientRequest where
  method : LbMethod
  subpath : List UInt8
  query : Option (List UInt8)
  headers : List Field
  body : List UInt8
  subpath_visible : ∀ b ∈ subpath, 33 ≤ b ∧ b ≤ 126 ∧ b ≠ 63
  query_visible : ∀ q, query = some q → ∀ b ∈ q, 33 ≤ b ∧ b ≤ 126
  headers_plain : ∀ f ∈ headers, f.Plain

/-- The path and the query after `/app/<pid>`. -/
def ClientRequest.target (r : ClientRequest) : List UInt8 :=
  47 :: (r.subpath ++ match r.query with
    | none => []
    | some q => 63 :: q)

/-! ## The server -/

/-- What Flask hands to `load_balance`. -/
structure FlaskRequest where
  method : String
  subpath : String
  queryString : List UInt8
  headers : List (String × String)
  data : List UInt8

def ClientRequest.flask (r : ClientRequest) : FlaskRequest where
  method := r.method.text
  subpath := decodeReplace (unquote r.subpath)
  queryString := r.query.getD []
  headers := r.headers.map fun f ↦ (latin1 f.name, latin1 f.value)
  data := r.body

/-- The hash of a request.  `headers` and `body_b64` are what they decode to. -/
structure StoredRequest where
  pid : String
  method : String
  path : String
  headers : List (String × String)
  bodyB64 : List UInt8
deriving DecidableEq

/-- `load_balance` up to `enqueue_request` -/
def loadBalance (pid : String) (request : FlaskRequest) : StoredRequest :=
  let path := "/" ++ request.subpath
  let path :=
    if request.queryString ≠ [] then path ++ ("?" ++ latin1 request.queryString) else path
  ⟨pid, request.method, path, request.headers, request.data⟩

/-- `uuid.uuid4().hex` -/
structure RequestId where
  hex : String
  hex_ne : hex ≠ ""
deriving DecidableEq

/-! ## The node -/

structure PendingRequest where
  reqId : String
  pid : String
  method : String
  path : String
  headers : List (String × String)
  body : List UInt8

/-- `next_request`, for a reply that has a request. -/
def nextRequest (reqId : String) (request : StoredRequest) : Option PendingRequest :=
  if reqId = "" then none
  else some ⟨reqId, request.pid, request.method, request.path, request.headers, request.bodyB64⟩

def toAsciiLowercase (s : String) : String := String.ofList (s.toList.map Char.toLower)

/-- A header that `proxy_request` skips. -/
def setByProxy (name : String) : Bool :=
  let lowered := toAsciiLowercase name
  lowered == "host" || lowered == "connection" || lowered == "content-length"

/-- The bytes that `proxy_request` writes to the socket. -/
def proxyRequest (method path : String) (headers : List (String × String)) (body : List UInt8) :
    List UInt8 :=
  let request := utf8 (method ++ " " ++ path ++ " HTTP/1.1\r\n")
  let request := request ++ utf8 "Host: tandem\r\n"
  let request := request ++ utf8 "Connection: close\r\n"
  let request := headers.foldl (fun request (name, value) ↦
    if setByProxy name then request else request ++ utf8 (name ++ ": " ++ value ++ "\r\n")) request
  let request := request ++ utf8 ("Content-Length: " ++ toString body.length ++ "\r\n")
  let request := request ++ utf8 "\r\n"
  request ++ body

/-- What the app reads from its socket of a client's request. -/
def ClientRequest.proxied (r : ClientRequest) (pid : String) (id : RequestId) :
    Option (List UInt8) :=
  (nextRequest id.hex (loadBalance pid r.flask)).map fun pending ↦
    proxyRequest pending.method pending.path pending.headers pending.body

/-! ## The request as the app sees it -/

/-- A header other than the three that the proxy sets. -/
def remaining (f : Field) : Bool :=
  !(f.named "host" || f.named "connection" || f.named "content-length")

/-- The app reads one request, and it is the client's. -/
def SeesRequest (r : ClientRequest) (pid : String) (id : RequestId) : Prop :=
  ∃ bytes m, r.proxied pid id = some bytes ∧ parse bytes = some m ∧
    m.method = utf8 r.method.text ∧ m.target = r.target ∧
    m.fields.filter remaining = r.headers.filter remaining ∧ m.body = r.body

/-- A header as it stands on the socket. -/
def onWire (header : String × String) : Field := ⟨utf8 header.1, utf8 header.2⟩

/-- The message that the proxy writes. -/
def proxyMessage (method path : String) (headers : List (String × String)) (body : List UInt8) :
    Message where
  method := utf8 method
  target := utf8 path
  fields := onWire ("Host", "tandem") :: onWire ("Connection", "close") ::
    ((headers.filter fun header ↦ !setByProxy header.1).map onWire ++
      [onWire ("Content-Length", toString body.length)])
  body := body

/-- The bytes of the texts in the code. -/
structure ProxyTexts : Prop where
  colon : utf8 ": " = [58, 32]
  crlf : utf8 "\r\n" = [13, 10]
  space : utf8 " " = [32]
  version : utf8 " HTTP/1.1\r\n" = 32 :: utf8 "HTTP/1.1" ++ [13, 10]
  slash : utf8 "/" = [47]
  mark : utf8 "?" = [63]
  host : latin1 (utf8 "host") = "host"
  connection : latin1 (utf8 "connection") = "connection"
  contentLength : latin1 (utf8 "content-length") = "content-length"
  /-- A Transfer-Encoding header is none of the three that the proxy sets. -/
  coding : ["host", "connection", "content-length"].all (utf8 · != utf8 "transfer-encoding")

  values : (utf8 "tandem" ++ utf8 "close").all (33 ≤ ·)

theorem proxyTexts : ProxyTexts := by
  constructor <;> decide +kernel

theorem utf8_header (name value : String) :
    utf8 (name ++ ": " ++ value ++ "\r\n") = (onWire (name, value)).line ++ [13, 10] := by
  rw [utf8_append, utf8_append, utf8_append, proxyTexts.colon, proxyTexts.crlf]
  unfold onWire Field.line
  simp

theorem foldl_headers (headers : List (String × String)) (request : List UInt8) :
    headers.foldl (fun request (name, value) ↦
      if setByProxy name then request
      else request ++ utf8 (name ++ ": " ++ value ++ "\r\n")) request =
      request ++ writeLines (((headers.filter fun header ↦ !setByProxy header.1).map onWire).map
        Field.line) := by
  induction headers generalizing request with
  | nil => exact (List.append_nil request).symm
  | cons header headers ih =>
    obtain ⟨name, value⟩ := header
    rw [List.foldl_cons, ih]
    dsimp only
    cases hskip : setByProxy name with
    | true => simp [hskip]
    | false =>
      rw [List.filter_cons_of_pos (by simp [hskip])]
      simp [utf8_header, writeLines]

/-- The proxy writes its message. -/
theorem proxyRequest_eq (method path : String) (headers : List (String × String))
    (body : List UInt8) :
    proxyRequest method path headers body = write (proxyMessage method path headers body) := by
  have hhost : utf8 "Host: tandem\r\n" = (onWire ("Host", "tandem")).line ++ [13, 10] := by
    rw [← utf8_header]
    rfl
  have hclose : utf8 "Connection: close\r\n" =
      (onWire ("Connection", "close")).line ++ [13, 10] := by
    rw [← utf8_header]
    rfl
  have hlength : utf8 ("Content-Length: " ++ toString body.length ++ "\r\n") =
      (onWire ("Content-Length", toString body.length)).line ++ [13, 10] := by
    rw [← utf8_header]
    rfl
  unfold proxyRequest
  dsimp only
  rw [foldl_headers, hhost, hclose, hlength, proxyTexts.crlf, utf8_append, utf8_append,
    utf8_append, proxyTexts.space, proxyTexts.version]
  unfold write proxyMessage startLine writeLines
  simp

/-! ## Headers -/

section Headers

/-- A byte as a Latin-1 character, and a byte of a token. -/
theorem latin1Char_spec (b : UInt8) : (latin1Char b).toLower = latin1Char (lowerByte b) ∧
    (latin1Char b).toNat = b.toNat ∧ (tokenByte b = true → b < 128) := by
  apply forall_byte (P := fun b ↦ (latin1Char b).toLower = latin1Char (lowerByte b) ∧
    (latin1Char b).toNat = b.toNat ∧ (tokenByte b = true → b < 128))
  decide +kernel

theorem latin1Char_injective : Function.Injective latin1Char := by
  intro a b h
  have hnat : a.toNat = b.toNat := by
    rw [← (latin1Char_spec a).2.1, h, (latin1Char_spec b).2.1]
  exact UInt8.toNat_inj.mp hnat

theorem toAsciiLowercase_latin1 (name : List UInt8) :
    toAsciiLowercase (latin1 name) = latin1 (name.map lowerByte) := by
  unfold toAsciiLowercase latin1
  rw [String.toList_ofList, List.map_map, List.map_map]
  congr 1
  apply List.map_congr_left
  intro b _
  exact (latin1Char_spec b).1

theorem latin1_injective : Function.Injective latin1 := by
  intro a b h
  have hlist := congrArg String.toList h
  unfold latin1 at hlist
  rw [String.toList_ofList, String.toList_ofList] at hlist
  exact List.map_injective_iff.mpr latin1Char_injective hlist

theorem named_iff {f : Field} {name : String} (hname : latin1 (utf8 name) = name) :
    (toAsciiLowercase (latin1 f.name) == name) = f.named name := by
  unfold Field.named
  rw [toAsciiLowercase_latin1]
  conv_lhs => rw [← hname]
  rw [Bool.eq_iff_iff, beq_iff_eq, beq_iff_eq]
  exact latin1_injective.eq_iff

/-- The proxy skips exactly the headers that do not remain. -/
theorem setByProxy_latin1 (f : Field) : (!setByProxy (latin1 f.name)) = remaining f := by
  unfold setByProxy remaining
  dsimp only
  rw [named_iff proxyTexts.host, named_iff proxyTexts.connection,
    named_iff proxyTexts.contentLength]

theorem tokenByte_ascii {b : UInt8} (h : tokenByte b) : b < 128 := (latin1Char_spec b).2.2 h

variable {f : Field}

/-- A client's header as it stands on the socket. -/
def rewired (f : Field) : Field := ⟨f.name, utf8 (latin1 f.value)⟩

theorem onWire_latin1 (h : f.Plain) : onWire (latin1 f.name, latin1 f.value) = rewired f := by
  have hname : utf8 (latin1 f.name) = f.name :=
    utf8_latin1_eq_iff.mpr fun b hb ↦ tokenByte_ascii (h.name.2 b hb)
  unfold onWire rewired
  rw [hname]

theorem remaining_rewired (f : Field) : remaining (rewired f) = remaining f := rfl

theorem rewired_eq_iff : rewired f = f ↔ Ascii f.value := by
  rw [← utf8_latin1_eq_iff]
  unfold rewired
  constructor
  · intro h
    exact congrArg Field.value h
  · intro h
    rw [h]

theorem mem_utf8_latin1 {b : UInt8} {value : List UInt8} (h : b ∈ utf8 (latin1 value)) :
    b ∈ value ∨ 128 ≤ b := by
  rw [utf8_latin1] at h
  obtain ⟨c, hc, hb⟩ := List.mem_flatMap.mp h
  obtain ⟨x, hx, rfl⟩ := List.mem_map.mp hc
  rcases UInt8.lt_or_le x 128 with hlow | hhigh
  · rw [utf8EncodeChar_latin1Char x hlow, List.mem_singleton] at hb
    exact Or.inl (hb ▸ hx)
  · obtain ⟨y, z, heq, hy, hz⟩ := utf8EncodeChar_latin1Char_high x hhigh
    rw [heq] at hb
    simp only [List.mem_cons, List.not_mem_nil, or_false] at hb
    rcases hb with rfl | rfl
    · exact Or.inr hy
    · exact Or.inr hz

theorem head?_utf8_latin1 {b : UInt8} {value : List UInt8}
    (h : (utf8 (latin1 value)).head? = some b) : value.head? = some b ∨ 128 ≤ b := by
  cases value with
  | nil => cases h
  | cons x value =>
    rw [utf8_latin1, List.map_cons, utf8Chars_cons] at h
    rcases UInt8.lt_or_le x 128 with hlow | hhigh
    · rw [utf8EncodeChar_latin1Char x hlow] at h
      exact Or.inl h
    · obtain ⟨y, z, heq, hy, -⟩ := utf8EncodeChar_latin1Char_high x hhigh
      rw [heq] at h
      cases h
      exact Or.inr hy

theorem getLast?_utf8_latin1 {b : UInt8} {value : List UInt8}
    (h : (utf8 (latin1 value)).getLast? = some b) : value.getLast? = some b ∨ 128 ≤ b := by
  rcases List.eq_nil_or_concat value with rfl | ⟨value, x, rfl⟩
  · cases h
  · rw [utf8_latin1, List.concat_eq_append, List.map_append, utf8Chars, List.flatMap_append] at h
    simp only [List.map_cons, List.map_nil, List.flatMap_cons, List.flatMap_nil,
      List.append_nil] at h
    rcases UInt8.lt_or_le x 128 with hlow | hhigh
    · rw [utf8EncodeChar_latin1Char x hlow, List.getLast?_concat] at h
      left
      rw [List.concat_eq_append, List.getLast?_concat, h]
    · obtain ⟨y, z, heq, -, hz⟩ := utf8EncodeChar_latin1Char_high x hhigh
      rw [heq, List.getLast?_append] at h
      cases h
      exact Or.inr hz

theorem ows_low {b : UInt8} (h : 128 ≤ b) : ¬ows b := by
  intro hows
  unfold ows at hows
  rcases Bool.or_eq_true_iff.mp hows with hows | hows
  · rw [beq_iff_eq.mp hows] at h
    exact absurd h (by decide)
  · rw [beq_iff_eq.mp hows] at h
    exact absurd h (by decide)

theorem rewired_plain (h : f.Plain) : (rewired f).Plain where
  name := h.name
  value := fun hcr ↦ by
    rcases mem_utf8_latin1 hcr with hcr | hcr
    · exact h.value hcr
    · exact absurd hcr (by decide)
  first := fun b hb ↦ by
    rcases head?_utf8_latin1 hb with hb | hb
    · exact h.first b hb
    · exact ows_low hb
  last := fun b hb ↦ by
    rcases getLast?_utf8_latin1 hb with hb | hb
    · exact h.last b hb
    · exact ows_low hb

end Headers

/-! ## The request line -/

section Requests

variable {r : ClientRequest} {pid : String} {id : RequestId}

/-- The path that `load_balance` stores. -/
def ClientRequest.storedPath (r : ClientRequest) (pid : String) : String :=
  (loadBalance pid r.flask).path

theorem ClientRequest.query_ascii {q : List UInt8} (hq : r.query = some q) : Ascii q :=
  fun b hb ↦ UInt8.lt_of_le_of_lt (r.query_visible q hq b hb).2 (by decide)

theorem ClientRequest.subpath_ascii : Ascii r.subpath :=
  fun b hb ↦ UInt8.lt_of_le_of_lt (r.subpath_visible b hb).2.1 (by decide)

theorem utf8_storedPath : utf8 (r.storedPath pid) =
    47 :: (utf8 (decodeReplace (unquote r.subpath)) ++ match r.query with
      | none | some [] => []
      | some (b :: q) => 63 :: b :: q) := by
  have hslash : utf8 "/" = [47] := proxyTexts.slash
  have hmark : utf8 "?" = [63] := proxyTexts.mark
  unfold ClientRequest.storedPath loadBalance ClientRequest.flask
  dsimp only
  cases hq : r.query with
  | none =>
    rw [Option.getD_none, if_neg (by simp), utf8_append, hslash]
    simp
  | some q =>
    cases q with
    | nil =>
      rw [Option.getD_some, if_neg (by simp), utf8_append, hslash]
      simp
    | cons b q =>
      have hquery : utf8 (latin1 (b :: q)) = b :: q :=
        utf8_latin1_eq_iff.mpr (ClientRequest.query_ascii hq)
      rw [Option.getD_some, if_pos (by simp), utf8_append, utf8_append, utf8_append, hslash, hmark,
        hquery]
      simp

/-- The path is stored as the client sent it when nothing of it was decoded or dropped. -/
theorem utf8_storedPath_eq_iff (r : ClientRequest) (pid : String) :
    utf8 (r.storedPath pid) = r.target ↔ NoEscape r.subpath ∧ r.query ≠ some [] := by
  have hdecode := utf8_decodeReplace_unquote_eq_iff r.subpath_ascii
  have hlength := length_utf8_decodeReplace_unquote r.subpath_ascii
  rw [utf8_storedPath, ClientRequest.target, List.cons_inj_right]
  cases hq : r.query with
  | none =>
    dsimp only
    rw [List.append_nil, List.append_nil, hdecode]
    simp
  | some q =>
    cases q with
    | nil =>
      -- the question mark of an empty query is dropped
      dsimp only
      constructor
      · intro h
        have hlen := congrArg List.length h
        rw [List.append_nil, List.length_append, List.length_cons] at hlen
        omega
      · intro h
        exact absurd rfl h.2
    | cons b q =>
      dsimp only
      rw [List.append_cancel_right_eq, hdecode]
      simp

theorem length_storedPath : (utf8 (r.storedPath pid)).length ≤ r.target.length := by
  have hlength := length_utf8_decodeReplace_unquote r.subpath_ascii
  rw [utf8_storedPath, ClientRequest.target, List.length_cons, List.length_cons,
    List.length_append, List.length_append]
  cases hq : r.query with
  | none => simpa using hlength
  | some q =>
    cases q with
    | nil =>
      dsimp only
      rw [List.length_nil]
      omega
    | cons b q =>
      dsimp only
      omega

theorem ClientRequest.target_bytes : ∀ b ∈ r.target, 33 ≤ b := by
  intro b hb
  unfold ClientRequest.target at hb
  rcases List.mem_cons.mp hb with rfl | hb
  · decide
  · rcases List.mem_append.mp hb with hb | hb
    · exact (r.subpath_visible b hb).1
    · cases hq : r.query with
      | none =>
        rw [hq] at hb
        exact absurd hb List.not_mem_nil
      | some q =>
        rw [hq] at hb
        rcases List.mem_cons.mp hb with rfl | hb
        · decide
        · exact (r.query_visible q hq b hb).1

theorem ClientRequest.target_word : Word r.target := by
  refine ⟨by unfold ClientRequest.target; simp, fun h ↦ ?_, fun h ↦ ?_⟩
  · exact absurd (r.target_bytes _ h) (by decide)
  · exact absurd (r.target_bytes _ h) (by decide)

theorem LbMethod.word (method : LbMethod) : Word (utf8 method.text) := by
  cases method <;> exact ⟨by decide +kernel, by decide +kernel, by decide +kernel⟩

/-! ## The message -/

/-- The message that is written for a client's request. -/
def ClientRequest.message (r : ClientRequest) (pid : String) : Message :=
  proxyMessage r.method.text (r.storedPath pid) r.flask.headers r.body

theorem proxied_eq : r.proxied pid id = some (write (r.message pid)) := by
  unfold ClientRequest.proxied nextRequest
  rw [if_neg id.hex_ne, Option.map_some, proxyRequest_eq]
  rfl

theorem message_fields : (r.message pid).fields =
    onWire ("Host", "tandem") :: onWire ("Connection", "close") ::
      ((r.headers.filter remaining).map rewired ++
        [onWire ("Content-Length", toString r.body.length)]) := by
  have hforward : (r.flask.headers.filter fun header ↦ !setByProxy header.1).map onWire =
      (r.headers.filter remaining).map rewired := by
    have hplain := r.headers_plain
    unfold ClientRequest.flask
    dsimp only
    generalize r.headers = headers at hplain
    induction headers with
    | nil => rfl
    | cons f headers ih =>
      have hrest := ih fun g hg ↦ hplain g (List.mem_cons_of_mem f hg)
      have hwire := onWire_latin1 (hplain f List.mem_cons_self)
      rw [List.map_cons, List.filter_cons, List.filter_cons, setByProxy_latin1]
      cases remaining f with
      | false => exact hrest
      | true => rw [if_pos rfl, if_pos rfl, List.map_cons, List.map_cons, hrest, hwire]
  unfold ClientRequest.message proxyMessage
  dsimp only
  rw [hforward]

/-- A header whose value has no spaces. -/
theorem onWire_plain {name value : String}
    (hname : utf8 name ≠ [] ∧ ∀ b ∈ utf8 name, tokenByte b) (hvalue : ∀ b ∈ utf8 value, 33 ≤ b) :
    (onWire (name, value)).Plain := by
  have hows : ∀ b ∈ utf8 value, ¬ows b := by
    intro b hb hows
    have hlow := hvalue b hb
    rcases Bool.or_eq_true_iff.mp hows with hows | hows
    · rw [beq_iff_eq.mp hows] at hlow
      exact absurd hlow (by decide)
    · rw [beq_iff_eq.mp hows] at hlow
      exact absurd hlow (by decide)
  refine ⟨hname, fun hcr ↦ ?_, fun b hb ↦ ?_, fun b hb ↦ ?_⟩
  · exact absurd (hvalue _ hcr) (by decide)
  · exact hows b (List.mem_of_head? hb)
  · exact hows b (List.mem_of_getLast? hb)

/-- A header that the proxy sets itself. -/
structure OwnHeader (name : String) : Prop where
  plain : utf8 name ≠ [] ∧ (utf8 name).all tokenByte
  remaining : remaining (onWire (name, "")) = false
  coding : (onWire (name, "")).named "transfer-encoding" = false
  length : (onWire (name, "")).named "content-length" = (name == "Content-Length")

instance (name : String) : Decidable (OwnHeader name) :=
  decidable_of_iff (_ ∧ _ ∧ _ ∧ _)
    ⟨fun h ↦ ⟨h.1, h.2.1, h.2.2.1, h.2.2.2⟩, fun h ↦ ⟨h.1, h.2, h.3, h.4⟩⟩

theorem ownHeaders : OwnHeader "Host" ∧ OwnHeader "Connection" ∧ OwnHeader "Content-Length" := by
  decide +kernel

theorem OwnHeader.onWire_plain {name value : String} (h : OwnHeader name)
    (hvalue : ∀ b ∈ utf8 value, 33 ≤ b) : (onWire (name, value)).Plain :=
  TandemAio.onWire_plain ⟨h.plain.1, List.all_eq_true.mp h.plain.2⟩ hvalue

theorem message_plain : ∀ f ∈ (r.message pid).fields, f.Plain := by
  have hvalues := List.all_eq_true.mp proxyTexts.values
  rw [message_fields]
  intro f hf
  simp only [List.mem_cons, List.mem_append, List.mem_map, List.mem_filter, List.not_mem_nil,
    or_false] at hf
  rcases hf with rfl | rfl | ⟨g, ⟨hg, -⟩, rfl⟩ | rfl
  · exact ownHeaders.1.onWire_plain fun b hb ↦ of_decide_eq_true
      (hvalues b (List.mem_append_left _ hb))
  · exact ownHeaders.2.1.onWire_plain fun b hb ↦ of_decide_eq_true
      (hvalues b (List.mem_append_right _ hb))
  · exact rewired_plain (r.headers_plain g hg)
  · obtain ⟨digits, heq, -, hall, -⟩ := utf8_repr r.body.length
    apply ownHeaders.2.2.onWire_plain
    rw [heq]
    exact fun b hb ↦ UInt8.le_trans (by decide) (hall b hb).1

/-- The value of a header does not say how it is named. -/
theorem onWire_named (name value other : String) :
    (onWire (name, value)).named other = (onWire (name, "")).named other := rfl

theorem onWire_remaining (name value : String) :
    remaining (onWire (name, value)) = remaining (onWire (name, "")) := rfl

/-- The headers that remain of the message are the client's, as they stand on the socket. -/
theorem message_remaining : (r.message pid).fields.filter remaining =
    (r.headers.filter remaining).map rewired := by
  obtain ⟨hhost, hclose, hlength⟩ := ownHeaders
  have hself : ((r.headers.filter remaining).map rewired).filter remaining =
      (r.headers.filter remaining).map rewired := by
    rw [List.filter_eq_self]
    intro f hf
    obtain ⟨g, hg, rfl⟩ := List.mem_map.mp hf
    rw [remaining_rewired]
    exact (List.mem_filter.mp hg).2
  rw [message_fields, List.filter_cons, onWire_remaining, hhost.remaining, List.filter_cons,
    onWire_remaining "Connection", hclose.remaining, List.filter_append, hself, List.filter_cons,
    onWire_remaining "Content-Length", hlength.remaining]
  simp

theorem map_rewired_eq_iff {headers : List Field} :
    headers.map rewired = headers ↔ ∀ f ∈ headers, Ascii f.value := by
  induction headers with
  | nil => simp
  | cons f headers ih =>
    rw [List.map_cons, List.cons.injEq, ih, rewired_eq_iff, List.forall_mem_cons]

theorem coding_remaining {f : Field} (h : f.named "transfer-encoding") : remaining f = true := by
  have hname : f.name.map lowerByte = utf8 "transfer-encoding" := by
    unfold Field.named at h
    exact beq_iff_eq.mp h
  have hnone := List.all_eq_true.mp proxyTexts.coding
  simp only [List.mem_cons, List.not_mem_nil, or_false, forall_eq_or_imp, forall_eq, bne_iff_ne,
    ne_eq] at hnone
  unfold remaining Field.named
  rw [hname]
  simp [Ne.symm hnone.1, Ne.symm hnone.2.1, Ne.symm hnone.2.2]

/-- A Transfer-Encoding header is forwarded, and the proxy adds none. -/
theorem message_coding (r : ClientRequest) (pid : String) :
    (∀ f ∈ (r.message pid).fields, ¬f.named "transfer-encoding") ↔
      ∀ f ∈ r.headers, ¬f.named "transfer-encoding" := by
  obtain ⟨hhost, hclose, hlength⟩ := ownHeaders
  rw [message_fields]
  constructor
  · intro h f hf hcoding
    have hmem : rewired f ∈ (r.headers.filter remaining).map rewired :=
      List.mem_map_of_mem (List.mem_filter.mpr ⟨hf, coding_remaining hcoding⟩)
    exact h (rewired f) (by simp [hmem]) hcoding
  · intro h f hf
    simp only [List.mem_cons, List.mem_append, List.mem_map, List.mem_filter, List.not_mem_nil,
      or_false] at hf
    rcases hf with rfl | rfl | ⟨g, ⟨hg, -⟩, rfl⟩ | rfl
    · rw [onWire_named, hhost.coding]
      decide
    · rw [onWire_named, hclose.coding]
      decide
    · exact h g hg
    · rw [onWire_named, hlength.coding]
      decide

theorem message_body (h : ∀ f ∈ r.headers, ¬f.named "transfer-encoding") :
    readBody (r.message pid).fields r.body = some r.body := by
  obtain ⟨hhost, hclose, hlength⟩ := ownHeaders
  have hnone : ((r.headers.filter remaining).map rewired).filter (·.named "content-length") =
      [] := by
    rw [List.filter_eq_nil_iff]
    intro f hf hnamed
    obtain ⟨g, hg, rfl⟩ := List.mem_map.mp hf
    have hremaining := (List.mem_filter.mp hg).2
    have hnamed' : g.named "content-length" = true := hnamed
    unfold remaining at hremaining
    rw [hnamed', Bool.or_true] at hremaining
    cases hremaining
  have honly : (r.message pid).fields.filter (·.named "content-length") =
      [onWire ("Content-Length", toString r.body.length)] := by
    rw [message_fields, List.filter_cons, onWire_named, hhost.length, List.filter_cons,
      onWire_named "Connection", hclose.length, List.filter_append, hnone, List.filter_cons,
      onWire_named "Content-Length", hlength.length]
    rfl
  exact readBody_length ((message_coding r pid).mpr h) honly (decimal_repr _)

/-- A client's request reaches the app as it was sent exactly when its path has no
percent-encoding and it has no empty query, it has no Transfer-Encoding, and the headers that are
forwarded are ASCII. -/
theorem sees_request_iff (r : ClientRequest) (pid : String) (id : RequestId) :
    SeesRequest r pid id ↔
      (NoEscape r.subpath ∧ r.query ≠ some []) ∧
      (∀ f ∈ r.headers, ¬f.named "transfer-encoding") ∧
      ∀ f ∈ r.headers.filter remaining, Ascii f.value := by
  have hparse : utf8 (r.storedPath pid) = r.target → parse (write (r.message pid)) =
      (readBody (r.message pid).fields r.body).map fun body ↦
        { r.message pid with body := body } := by
    intro htarget
    have hword : Word (r.message pid).target := by
      show Word (utf8 (r.storedPath pid))
      rw [htarget]
      exact r.target_word
    exact parse_write r.method.word hword message_plain
  constructor
  · rintro ⟨bytes, m, hbytes, hm, hmethod, htarget, hremaining, hbody⟩
    rw [proxied_eq] at hbytes
    cases hbytes
    -- the request line stands at the front of the stream, whatever it reads as
    have hstart : r.target = utf8 (r.storedPath pid) := by
      obtain ⟨after, hafter⟩ := startLine_of_parse hm
      have hwrite : write (r.message pid) =
          startLine (utf8 r.method.text) (utf8 (r.storedPath pid)) ++ 13 :: 10 ::
            (writeLines ((r.message pid).fields.map Field.line) ++ 13 :: 10 :: r.body) := by
        unfold write writeLines
        simp [ClientRequest.message, proxyMessage]
      rw [hmethod, htarget, hwrite] at hafter
      exact startLine_target r.target_word.2.1 length_storedPath hafter.symm
    have hsame := (utf8_storedPath_eq_iff r pid).mp hstart.symm
    rw [hparse hstart.symm] at hm
    obtain ⟨body, hread, rfl⟩ := Option.map_eq_some_iff.mp hm
    refine ⟨hsame, ?_, ?_⟩
    · by_contra hcoding
      rw [← message_coding r pid] at hcoding
      push Not at hcoding
      obtain ⟨f, hf, hnamed⟩ := hcoding
      have hshort := readBody_chunked hf hnamed hread
      dsimp only at hbody
      rw [hbody] at hshort
      exact absurd hshort (lt_irrefl _)
    · dsimp only at hremaining
      rw [message_remaining] at hremaining
      exact map_rewired_eq_iff.mp hremaining
  · rintro ⟨hpath, hcoding, hascii⟩
    have htarget := (utf8_storedPath_eq_iff r pid).mpr hpath
    refine ⟨_, r.message pid, proxied_eq, ?_, rfl, htarget, ?_, rfl⟩
    · rw [hparse htarget, message_body hcoding]
      rfl
    · rw [message_remaining]
      exact map_rewired_eq_iff.mpr hascii

end Requests

/-! ## A path with a space -/

/-- `GET /app/<pid>/a%20b` -/
def spaceRequest : ClientRequest where
  method := .get
  subpath := utf8 "a%20b"
  query := none
  headers := []
  body := []
  subpath_visible := by decide +kernel
  query_visible := fun q hq ↦ by cases hq
  headers_plain := fun f hf ↦ absurd hf List.not_mem_nil

/-- The request line that the app reads has three spaces. -/
theorem space_splits_request_line :
    ¬SeesRequest spaceRequest "serve_1" ⟨"6f1e", by decide⟩ := by
  rintro ⟨bytes, m, hbytes, hm, -⟩
  have hline : (spaceRequest.proxied "serve_1" ⟨"6f1e", by decide⟩).map parse = some none := by
    decide +kernel
  rw [hbytes, Option.map_some, hm] at hline
  cases hline

end TandemAio
