import TriTip.Rpc.Connection

/-!
# Requests and replies as texts

A request with its headers is read as its body (`serveRequest_httpRequest`), a reply as its status
and its message (`ReadHTTP_HTTPReply`). Nothing that `write_string` writes has a zero in it, where
`HTTPReply` would cut it off, and a password is compared as it was encoded (`HTTPAuthorized_iff`).
-/

namespace TriTip

variable {ρ σ : Type}

/-! ## Texts without a zero -/

section NoZero

open Generator

variable {P : Platform ρ} {pretty : Bool}

theorem zero_notMem_printed (n : Nat) : (0 : UInt8) ∉ printed 10 n := by
  intro h
  exact absurd (isdigit_printed n 0 h) (by decide)

theorem zero_notMem_signed (negative : Bool) {digits : List UInt8} (h : (0 : UInt8) ∉ digits) :
    (0 : UInt8) ∉ signed negative digits := by
  have hminus : (0 : UInt8) ∉ ['-'.toUInt8] := by decide
  cases negative with
  | true => exact fun hmem => (List.mem_append.1 hmem).elim hminus h
  | false => exact h

theorem zero_notMem_non_printable (n : Nat) : (0 : UInt8) ∉ non_printable_to_string n := by
  have hhex : ∀ m, (0 : UInt8) ≠ to_hex_char (m % 16) := by
    intro m heq
    have hall : ∀ n < 16, (0 : UInt8) ≠ to_hex_char n := by decide +kernel
    exact hall _ (Nat.mod_lt _ (by decide)) heq
  have hu : (0 : UInt8) ∉ chars "\\u" := by decide
  simp only [non_printable_to_string, List.mem_append, List.mem_cons, List.not_mem_nil, or_false,
    not_or]
  exact ⟨hu, hhex _, hhex _, hhex _, hhex _⟩

theorem zero_notMem_add_esc_chars (hzero : P.iswprint 0 = false) (s : List UInt8) :
    (0 : UInt8) ∉ add_esc_chars P s := by
  intro h
  obtain ⟨c, -, hc⟩ := List.mem_flatMap.1 h
  rcases add_esc_char_cases c with ⟨letter, heq, hletter, -, -⟩ | ⟨heq, -⟩
  · rw [heq] at hc
    simp only [List.mem_cons, List.not_mem_nil, or_false] at hc
    rcases hc with hc | rfl
    · exact absurd hc (by decide)
    · have hnone : letters.lookup (0 : UInt8) = none := by decide
      rw [hnone] at hletter
      cases hletter
  · rw [heq] at hc
    simp only at hc
    split at hc
    · next hprint =>
      obtain rfl := List.mem_singleton.1 hc
      rw [hzero] at hprint
      cases hprint
    · exact zero_notMem_non_printable _ hc

theorem zero_notMem_outputStr (hzero : P.iswprint 0 = false) (s : List UInt8) :
    (0 : UInt8) ∉ outputStr P s := by
  have hquote : (0 : UInt8) ≠ '"'.toUInt8 := by decide
  simp only [outputStr, List.mem_cons, List.mem_append, List.not_mem_nil, or_false, not_or]
  exact ⟨hquote, zero_notMem_add_esc_chars hzero s, hquote⟩

theorem zero_notMem_of_isspace {l : List UInt8} (h : ∀ c ∈ l, isspace c = true) :
    (0 : UInt8) ∉ l := fun hmem => absurd (h 0 hmem) (by decide)

theorem zero_notMem_items (level : Nat) {texts : List (List UInt8)}
    (h : ∀ t ∈ texts, (0 : UInt8) ∉ t) : (0 : UInt8) ∉ items pretty level texts := by
  induction texts with
  | nil => simp [items]
  | cons t texts ih =>
    obtain ⟨ht, htexts⟩ := List.forall_mem_cons.1 h
    have hcomma : (0 : UInt8) ∉ (if texts.isEmpty then [] else [','.toUInt8]) := by
      split
      · simp
      · decide
    simp only [items, List.mem_append, not_or]
    exact ⟨zero_notMem_of_isspace (isspace_indent level), ht, hcomma,
      zero_notMem_of_isspace isspace_new_line, ih htexts⟩

theorem zero_notMem_output_array_or_obj (level : Nat) {texts : List (List UInt8)}
    {start stop : UInt8}
    (hstart : (0 : UInt8) ≠ start) (hstop : (0 : UInt8) ≠ stop)
    (h : ∀ t ∈ texts, (0 : UInt8) ∉ t) :
    (0 : UInt8) ∉ output_array_or_obj pretty texts start stop level := by
  simp only [output_array_or_obj, List.mem_cons, List.mem_append, List.not_mem_nil, or_false,
    not_or]
  exact ⟨hstart, zero_notMem_of_isspace isspace_new_line, zero_notMem_items _ h,
    zero_notMem_of_isspace (isspace_indent level), hstop⟩

/-- No text has a zero in it, if zero is not printable. -/
theorem zero_notMem_output (hzero : P.iswprint 0 = false) (v : Value ρ) (level : Nat) :
    (0 : UInt8) ∉ output P pretty v level := by
  induction v using Value.induct generalizing level with
  | obj pairs ih =>
    rw [output, outputPairs_eq]
    apply zero_notMem_output_array_or_obj _ (by decide) (by decide)
    intro t ht
    obtain ⟨⟨name, value⟩, hp, rfl⟩ := List.mem_map.1 ht
    have hcolon : (0 : UInt8) ≠ ':'.toUInt8 := by decide
    have hspace : (0 : UInt8) ∉ space pretty := zero_notMem_of_isspace isspace_space
    simp only [outputPair, List.mem_append, List.mem_cons, not_or]
    exact ⟨zero_notMem_outputStr hzero name, hspace, hcolon, hspace, ih _ hp _⟩
  | array elements ih =>
    rw [output, outputElements_eq]
    apply zero_notMem_output_array_or_obj _ (by decide) (by decide)
    intro t ht
    obtain ⟨v, hv, rfl⟩ := List.mem_map.1 ht
    exact ih v hv _
  | str s =>
    rw [output]
    exact zero_notMem_outputStr hzero s
  | bool b =>
    rw [output]
    cases b <;> decide
  | int i is_uint64 =>
    rw [output, output_int_eq]
    split
    · exact zero_notMem_printed _
    · exact zero_notMem_signed _ (zero_notMem_printed _)
  | real d =>
    have hdot : (0 : UInt8) ≠ '.'.toUInt8 := by decide
    rw [output, output_real_eq]
    simp only [List.mem_append, List.mem_cons, not_or]
    refine ⟨zero_notMem_signed _ (zero_notMem_printed _), hdot, ?_⟩
    intro h
    exact absurd (isdigit_printed08 _ 0 h) (by decide)
  | null =>
    rw [output]
    decide

end NoZero

/-! ## Credentials -/

/-- No character of an encoding ends a line or a string. -/
theorem mem_EncodeBase64 (b : List UInt8) :
    ∀ c ∈ EncodeBase64 b, isspace c = false ∧ c ≠ 0 ∧ c ≠ carriageReturn ∧ c ≠ newline := by
  obtain ⟨l, k, hencode, -, hlt, -⟩ := Base64State.EncodeBase64_eq b
  have hchar : ∀ x < 64, isspace (pbase64.getD x 0) = false ∧ pbase64.getD x 0 ≠ 0 ∧
      pbase64.getD x 0 ≠ carriageReturn ∧ pbase64.getD x 0 ≠ newline := by decide +kernel
  intro c hc
  rw [hencode] at hc
  rcases List.mem_append.1 hc with hc | hc
  · obtain ⟨x, hx, rfl⟩ := List.mem_map.1 hc
    exact hchar x (hlt x hx)
  · rw [List.eq_of_mem_replicate hc]
    decide

theorem trim_EncodeBase64 (b : List UInt8) : trim (EncodeBase64 b) = EncodeBase64 b := by
  have hnone : ∀ c ∈ ([] : List UInt8), isspace c = true := by simp
  have htrimmed : Trimmed (EncodeBase64 b) :=
    ⟨fun c hc => (mem_EncodeBase64 b c (List.mem_of_mem_head? hc)).1,
      fun c hc => (mem_EncodeBase64 b c (List.mem_of_getLast? hc)).1⟩
  simpa using trim_append hnone htrimmed hnone

theorem c_str_of_notMem {str : List UInt8} (h : (0 : UInt8) ∉ str) : c_str str = str := by
  rw [c_str, List.takeWhile_eq_self_iff]
  intro c hc
  rw [decide_eq_true_iff]
  rintro rfl
  exact h hc

/-- The password is compared as it was encoded. -/
theorem HTTPAuthorized_iff {strRPCUserColonPass b : List UInt8}
    {mapHeaders : KeyValue.Store (List UInt8) (List UInt8)}
    (h : mapHeaders (chars "authorization") = some (chars "Basic " ++ EncodeBase64 b)) :
    HTTPAuthorized strRPCUserColonPass mapHeaders = true ↔ b = strRPCUserColonPass := by
  have hlength : (chars "Basic ").length = 6 := rfl
  have htake : (chars "Basic " ++ EncodeBase64 b).take 6 = chars "Basic " := by
    rw [← hlength, List.take_left]
  have hdrop : (chars "Basic " ++ EncodeBase64 b).drop 6 = EncodeBase64 b := by
    rw [← hlength, List.drop_left]
  have hzero : (0 : UInt8) ∉ EncodeBase64 b := fun hmem => (mem_EncodeBase64 b 0 hmem).2.1 rfl
  have hdecode := DecodeBase64_append b (t := []) rfl
  rw [List.append_nil] at hdecode
  rw [HTTPAuthorized, h]
  simp only [Option.getD_some, htake, hdrop, trim_EncodeBase64, c_str_of_notMem hzero, hdecode]
  simp

theorem HeaderFits_authorization (C : RPCClient ρ) : HeaderFits (authorization C) := by
  have hname : (carriageReturn ∉ chars "Authorization" ∧ newline ∉ chars "Authorization") ∧
      ':'.toUInt8 ∉ chars "Authorization" ∧ Trimmed (chars "Authorization") := by decide +kernel
  have hbasic : carriageReturn ∉ chars "Basic " ∧ newline ∉ chars "Basic " := by decide
  have hmem := mem_EncodeBase64 (C.rpcuser ++ ':'.toUInt8 :: C.rpcpassword)
  refine ⟨hname.1, hname.2.1, hname.2.2, ⟨?_, ?_⟩, ?_, ?_⟩
  · exact fun h => (List.mem_append.1 h).elim hbasic.1 fun h => (hmem _ h).2.2.1 rfl
  · exact fun h => (List.mem_append.1 h).elim hbasic.2 fun h => (hmem _ h).2.2.2 rfl
  · intro c hc
    obtain rfl : 'B'.toUInt8 = c := Option.some.inj hc
    decide
  · intro c hc
    have hne : EncodeBase64 (C.rpcuser ++ ':'.toUInt8 :: C.rpcpassword) ≠ [] := by
      intro hnil
      have hdecode := DecodeBase64_append (C.rpcuser ++ ':'.toUInt8 :: C.rpcpassword) (t := []) rfl
      rw [List.append_nil, hnil] at hdecode
      have hb : [] = C.rpcuser ++ ':'.toUInt8 :: C.rpcpassword := congrArg Prod.fst hdecode
      simp at hb
    change c ∈ (chars "Basic " ++ EncodeBase64 _).getLast? at hc
    rw [List.getLast?_append_of_ne_nil _ hne] at hc
    exact (hmem c (List.mem_of_getLast? hc)).1

/-! ## Requests and replies as texts -/

/-- A request with any headers. -/
def httpRequest (headers : List (List UInt8 × List UInt8)) (body : List UInt8) : List UInt8 :=
  postLine ++ newline :: (headers.flatMap (headerLine · ++ [newline]) ++ (crlf ++ body))

/-- The headers can be read, and one of them has the length of the body. -/
structure Framed (headers : List (List UInt8 × List UInt8)) (body : List UInt8) : Prop where
  fits : ∀ item ∈ headers, HeaderFits item
  nodup : (headers.map fun item => item.1.map tolower).Nodup
  length : (chars "Content-Length", printed 10 body.length) ∈ headers
  size : body.length ≤ MAX_SIZE.toNat

/-- The headers of a framed body are read, and the body behind them. -/
theorem Framed.ReadHTTPMessage_eq {headers : List (List UInt8 × List UInt8)} {body : List UInt8}
    (h : Framed headers body) (rest : List UInt8) (nProto : Int32) :
    ReadHTTPMessage
        ⟨headers.flatMap (headerLine · ++ [newline]) ++ (crlf ++ (body ++ rest)), false⟩ nProto =
      (⟨rest, false⟩, ⟨HTTP_OK, keepAlive nProto (headerMap headers), body⟩) := by
  have hmax : MAX_SIZE.toNat = 0x02000000 := rfl
  have hsize := h.size
  have hread := ReadHTTPHeaders_lines h.fits (body ++ rest) (fun _ => none, 0)
  have hname : (chars "Content-Length").map tolower = chars "content-length" := by decide
  rw [← headerMap, foldl_contentLength_of_mem h.nodup h.length hname] at hread
  exact ReadHTTPMessage_of_headers hread (atoi_printed (by omega)) h.size nProto

theorem serveRequest_httpRequest {headers : List (List UInt8 × List UInt8)} {body : List UInt8}
    (h : Framed headers body) (R : RPCServer σ ρ) (rest : List UInt8) (s : σ) :
    serveRequest R ⟨httpRequest headers body ++ rest, false⟩ s =
      serveMessage R (chars "/") ⟨HTTP_OK, keepAlive 1 (headerMap headers), body⟩ ⟨rest, false⟩
        s := by
  have htext : httpRequest headers body ++ rest = postLine ++ newline ::
      (headers.flatMap (headerLine · ++ [newline]) ++ (crlf ++ (body ++ rest))) := by
    simp [httpRequest]
  rw [serveRequest, htext, ReadHTTPRequestLine_postLine]
  simp only [h.ReadHTTPMessage_eq rest 1]

/-- Only the header of the connection may be added. -/
theorem keepAlive_of_ne {name : List UInt8} (h : name ≠ chars "connection") (nProto : Int32)
    (mapHeaders : KeyValue.Store (List UInt8) (List UInt8)) :
    keepAlive nProto mapHeaders name = mapHeaders name := by
  unfold keepAlive
  split
  · exact Function.update_of_ne h _ _
  · rfl

/-- The status line of a reply, with the carriage return. -/
def statusLine (nStatus : Int32) : List UInt8 :=
  chars "HTTP/1.1 " ++ printedInt nStatus.toInt ++ chars " " ++ statusText nStatus ++
    [carriageReturn]

def replyHeaders (rfc1123Time strMsg : List UInt8) (keepalive : Bool) :
    List (List UInt8 × List UInt8) :=
  [(chars "Date", rfc1123Time),
    (chars "Connection", if keepalive then chars "keep-alive" else chars "close"),
    (chars "Content-Length", printed 10 strMsg.length),
    (chars "Content-Type", chars "application/json"),
    (chars "Server", chars "bitcoin-json-rpc/" ++ FormatFullVersion)]

theorem HTTPReply_eq (rfc1123Time : List UInt8) {nStatus : Int32}
    (hstatus : nStatus ≠ HTTP_UNAUTHORIZED)
    {strMsg : List UInt8} (hzero : (0 : UInt8) ∉ strMsg) (keepalive : Bool) :
    HTTPReply rfc1123Time nStatus strMsg keepalive = statusLine nStatus ++ newline ::
      ((replyHeaders rfc1123Time strMsg keepalive).flatMap (headerLine · ++ [newline]) ++
        (crlf ++ strMsg)) := by
  have htype : chars "Content-Type: application/json\r\n" =
      headerLine (chars "Content-Type", chars "application/json") ++ [newline] := by decide
  have hdate : chars "Date: " = chars "Date" ++ chars ": " := by decide
  have hconnection : chars "Connection: " = chars "Connection" ++ chars ": " := by decide
  have hlength : chars "Content-Length: " = chars "Content-Length" ++ chars ": " := by decide
  have hserver : chars "Server: bitcoin-json-rpc/" =
      chars "Server" ++ chars ": " ++ chars "bitcoin-json-rpc/" := by decide
  have hcrlf : crlf = [carriageReturn] ++ [newline] := rfl
  unfold HTTPReply statusLine replyHeaders
  rw [if_neg hstatus, c_str_of_notMem hzero, htype, hdate, hconnection, hlength, hserver, hcrlf]
  simp only [headerLine, List.flatMap_cons, List.flatMap_nil, List.append_assoc, List.cons_append,
    List.nil_append]

/-- The statuses of replies to requests with the right password. -/
def Answered (nStatus : Int32) : Prop :=
  nStatus = HTTP_OK ∨ nStatus = HTTP_BAD_REQUEST ∨ nStatus = HTTP_NOT_FOUND ∨
    nStatus = HTTP_INTERNAL_SERVER_ERROR

theorem ReadHTTPStatus_statusLine {nStatus : Int32} (h : Answered nStatus) (rest : List UInt8) :
    ReadHTTPStatus ⟨statusLine nStatus ++ newline :: rest, false⟩ =
      (⟨rest, false⟩, 1, nStatus) := by
  have hline : newline ∉ statusLine nStatus := by
    rcases h with rfl | rfl | rfl | rfl <;> decide
  have hread : ∃ a b l, (statusLine nStatus).splitOn ' '.toUInt8 = a :: b :: l ∧
      readProto (statusLine nStatus) = 1 ∧ atoi (c_str b) = nStatus := by
    rcases h with rfl | rfl | rfl | rfl
    · exact ⟨chars "HTTP/1.1", chars "200", [chars "OK\r"], by decide, by decide, by decide⟩
    · exact ⟨chars "HTTP/1.1", chars "400", [chars "Bad", chars "Request\r"], by decide, by decide,
        by decide⟩
    · exact ⟨chars "HTTP/1.1", chars "404", [chars "Not", chars "Found\r"], by decide, by decide,
        by decide⟩
    · exact ⟨chars "HTTP/1.1", chars "500", [chars "Internal", chars "Server", chars "Error\r"],
        by decide, by decide, by decide⟩
  obtain ⟨a, b, l, hsplit, hproto, hstatus⟩ := hread
  rw [ReadHTTPStatus, getline_line hline]
  simp only [hsplit, hproto, hstatus]

theorem framed_replyHeaders {rfc1123Time strMsg : List UInt8}
    (htime : HeaderFits (chars "Date", rfc1123Time)) (hsize : strMsg.length ≤ MAX_SIZE.toNat)
    (keepalive : Bool) : Framed (replyHeaders rfc1123Time strMsg keepalive) strMsg := by
  obtain ⟨hends, htrimmed⟩ := printed_fits strMsg.length
  refine ⟨?_, ?_, by simp [replyHeaders], hsize⟩
  · intro item hitem
    simp only [replyHeaders, List.mem_cons, List.not_mem_nil, or_false] at hitem
    rcases hitem with rfl | rfl | rfl | rfl | rfl
    · exact htime
    · cases keepalive <;> decide +kernel
    · have hname : (carriageReturn ∉ chars "Content-Length" ∧ newline ∉ chars "Content-Length") ∧
          ':'.toUInt8 ∉ chars "Content-Length" ∧ Trimmed (chars "Content-Length") := by
        decide +kernel
      exact ⟨hname.1, hname.2.1, hname.2.2, hends, htrimmed⟩
    · decide +kernel
    · decide +kernel
  · have hnames : (replyHeaders rfc1123Time strMsg keepalive).map (fun item => item.1.map tolower) =
        [chars "Date", chars "Connection", chars "Content-Length", chars "Content-Type",
          chars "Server"].map (List.map tolower) := rfl
    rw [hnames]
    decide +kernel

/-- **A reply is read back**: its status and its message. -/
theorem ReadHTTP_HTTPReply {rfc1123Time strMsg : List UInt8} {nStatus : Int32}
    (htime : HeaderFits (chars "Date", rfc1123Time)) (hstatus : Answered nStatus)
    (hzero : (0 : UInt8) ∉ strMsg) (hsize : strMsg.length ≤ MAX_SIZE.toNat) (keepalive : Bool)
    (rest : List UInt8) :
    ∃ stream mapHeaders,
      ReadHTTPStatus ⟨HTTPReply rfc1123Time nStatus strMsg keepalive ++ rest, false⟩ =
        (stream, 1, nStatus) ∧
      ReadHTTPMessage stream 1 = (⟨rest, false⟩, ⟨HTTP_OK, mapHeaders, strMsg⟩) := by
  have hne : nStatus ≠ HTTP_UNAUTHORIZED := by
    rcases hstatus with rfl | rfl | rfl | rfl <;> decide
  have htext : HTTPReply rfc1123Time nStatus strMsg keepalive ++ rest = statusLine nStatus ++
      newline :: ((replyHeaders rfc1123Time strMsg keepalive).flatMap (headerLine · ++ [newline]) ++
        (crlf ++ (strMsg ++ rest))) := by
    rw [HTTPReply_eq rfc1123Time hne hzero]
    simp only [List.append_assoc, List.cons_append]
  refine ⟨_, _, ?_, (framed_replyHeaders htime hsize keepalive).ReadHTTPMessage_eq rest 1⟩
  rw [htext, ReadHTTPStatus_statusLine hstatus]

end TriTip
