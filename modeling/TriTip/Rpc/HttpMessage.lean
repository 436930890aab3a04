import TriTip.Lib.Blank
import TriTip.Lib.KeyValue
import TriTip.Net.MessageHeader
import TriTip.Net.Onion
import TriTip.Store.Salvage
import TriTip.Util.Decimal

/-!
# HTTP messages

`HTTPPost` of `bitcoinrpc.cpp` writes a request as text; `ReadHTTPRequestLine`, `ReadHTTPHeaders`
and `ReadHTTPMessage` read one from a stream. The lines end in a carriage return that `getline`
leaves to the trimming of the values, and the length of the body is a header. `ReadHTTP_HTTPPost`:
what was written is read back and not a byte more.
-/

namespace TriTip

def carriageReturn : UInt8 := '\r'.toUInt8

/-- `"\r\n"` -/
def crlf : List UInt8 := [carriageReturn, newline]

/-- `CLIENT_BUILD`, without a `build.h`. -/
def FormatFullVersion : List UInt8 := chars "v0.8.99.0-gd1020b7" ++ chars "-beta"

/-! ## The request -/

def HTTPPost (strMsg : List UInt8) (mapRequestHeaders : List (List UInt8 × List UInt8)) :
    List UInt8 :=
  chars "POST / HTTP/1.1\r\n" ++
    (chars "User-Agent: bitcoin-json-rpc/" ++ FormatFullVersion ++ crlf) ++
    chars "Host: 127.0.0.1\r\n" ++
    chars "Content-Type: application/json\r\n" ++
    (chars "Content-Length: " ++ printed 10 strMsg.length ++ crlf) ++
    chars "Connection: close\r\n" ++
    chars "Accept: application/json\r\n" ++
    (mapRequestHeaders.flatMap fun item => item.1 ++ chars ": " ++ item.2 ++ crlf) ++
    crlf ++ strMsg

/-! ## Reading it -/

/-- `boost::trim` -/
def trim (s : List UInt8) : List UInt8 := (s.dropWhile isspace).rdropWhile isspace

/-- The first place of a text where another one begins. -/
def strstr (needle : List UInt8) : List UInt8 → Option (List UInt8)
  | [] => if needle = [] then some [] else none
  | c :: s => if needle.isPrefixOf (c :: s) then some (c :: s) else strstr needle s

def atoi (s : List UInt8) : Int32 := .ofInt (strtol s).1

structure HTTPRequestLine where
  http_method : List UInt8
  http_uri : List UInt8
  proto : Int32
  deriving DecidableEq

/-- The protocol that a word names. -/
def readProto (strProto : List UInt8) : Int32 :=
  match strstr (chars "HTTP/1.") (c_str strProto) with
  | none => 0
  | some ver => atoi (ver.drop 7)

/-- The words of a request line. -/
def readWords : List (List UInt8) → Option HTTPRequestLine
  | http_method :: http_uri :: vWords =>
    -- HTTP methods permitted: GET, POST
    if http_method ≠ chars "GET" ∧ http_method ≠ chars "POST" then none
    -- HTTP URI must be an absolute path, relative to current host
    else if http_uri.head? ≠ some '/'.toUInt8 then none
    else some ⟨http_method, http_uri, readProto (vWords.headD [])⟩
  | _ => none

def ReadHTTPRequestLine (stream : IStream) : IStream × Option HTTPRequestLine :=
  let (stream, str) := getline stream []
  -- HTTP request line is space-delimited
  (stream, readWords (str.splitOn ' '.toUInt8))

/-- A header, and the length of the body so far. -/
def readHeader (s : KeyValue.Store (List UInt8) (List UInt8) × Int32) (str : List UInt8) :
    KeyValue.Store (List UInt8) (List UInt8) × Int32 :=
  match str.dropWhile (· ≠ ':'.toUInt8) with
  | [] => s
  | _ :: value =>
    let strHeader := (trim (str.takeWhile (· ≠ ':'.toUInt8))).map tolower
    let strValue := trim value
    (Function.update s.1 strHeader (some strValue),
      if strHeader = chars "content-length" then atoi strValue else s.2)

theorem eof_of_getline {s : IStream} (h : (getline s []).2 ≠ []) : s.eof = false := by
  cases heof : s.eof with
  | false => rfl
  | true =>
    rw [getline, if_pos heof] at h
    exact absurd rfl h

def ReadHTTPHeaders (stream : IStream)
    (s : KeyValue.Store (List UInt8) (List UInt8) × Int32) :
    IStream × KeyValue.Store (List UInt8) (List UInt8) × Int32 :=
  let r := getline stream []
  if h : r.2 = [] ∨ r.2 = [carriageReturn] then (r.1, s)
  else
    have := getline_left_lt (eof_of_getline (not_or.1 h).1) []
    ReadHTTPHeaders r.1 (readHeader s r.2)
termination_by stream.left

/-- One line of the headers. -/
theorem ReadHTTPHeaders_of_getline {stream stream' : IStream} {str : List UInt8}
    (h : getline stream [] = (stream', str))
    (s : KeyValue.Store (List UInt8) (List UInt8) × Int32) :
    ReadHTTPHeaders stream s =
      if str = [] ∨ str = [carriageReturn] then (stream', s)
      else ReadHTTPHeaders stream' (readHeader s str) := by
  rw [ReadHTTPHeaders]
  simp only [h]
  split <;> rfl

/-- `read` into a buffer of zeros. -/
def IStream.read (s : IStream) (n : Nat) : IStream × List UInt8 :=
  if s.eof then (s, List.replicate n 0)
  else if s.rest.length < n then
    (⟨[], true⟩, s.rest ++ List.replicate (n - s.rest.length) 0)
  else (⟨s.rest.drop n, false⟩, s.rest.take n)

def HTTP_OK : Int32 := 200

def HTTP_INTERNAL_SERVER_ERROR : Int32 := 500

/-- What is returned, the headers and the message. -/
structure HTTPMessage where
  nStatus : Int32
  mapHeadersRet : KeyValue.Store (List UInt8) (List UInt8)
  strMessageRet : List UInt8

/-- The header for the connection, which the protocol decides if it says neither. -/
def keepAlive (nProto : Int32) (mapHeadersRet : KeyValue.Store (List UInt8) (List UInt8)) :
    KeyValue.Store (List UInt8) (List UInt8) :=
  let sConHdr := (mapHeadersRet (chars "connection")).getD []
  if sConHdr ≠ chars "close" ∧ sConHdr ≠ chars "keep-alive" then
    Function.update mapHeadersRet (chars "connection")
      (some (if 1 ≤ nProto then chars "keep-alive" else chars "close"))
  else mapHeadersRet

def ReadHTTPMessage (stream : IStream) (nProto : Int32) : IStream × HTTPMessage :=
  -- Read header
  let (stream, mapHeadersRet, nLen) := ReadHTTPHeaders stream (fun _ => none, 0)
  if nLen < 0 ∨ MAX_SIZE.toInt32 < nLen then
    (stream, ⟨HTTP_INTERNAL_SERVER_ERROR, mapHeadersRet, []⟩)
  else
    -- Read message
    let (stream, strMessageRet) := if 0 < nLen then stream.read nLen.toInt.toNat else (stream, [])
    (stream, ⟨HTTP_OK, keepAlive nProto mapHeadersRet, strMessageRet⟩)

/-! ## Lines -/

/-- A text without white space around it. -/
def Trimmed (s : List UInt8) : Prop :=
  (∀ c ∈ s.head?, isspace c = false) ∧ ∀ c ∈ s.getLast?, isspace c = false

instance (s : List UInt8) : Decidable (Trimmed s) := inferInstanceAs (Decidable (_ ∧ _))

theorem trim_append {blanks s blanks' : List UInt8} (hblanks : ∀ c ∈ blanks, isspace c = true)
    (hs : Trimmed s) (hblanks' : ∀ c ∈ blanks', isspace c = true) :
    trim (blanks ++ s ++ blanks') = s := by
  unfold trim
  rw [List.append_assoc, List.dropWhile_append_of_pos hblanks]
  cases s with
  | nil => simp [List.dropWhile_eq_nil_iff.2 hblanks']
  | cons c s =>
    have hc : ¬ isspace c = true := by simpa using hs.1 c rfl
    rw [List.cons_append, List.dropWhile_cons_of_neg hc, ← List.cons_append,
      Blank.rdropWhile_append_of_all hblanks', List.rdropWhile_eq_self_iff]
    intro hne
    have hlast := hs.2 _ (List.getLast?_eq_some_getLast hne)
    simp [hlast]

/-- A header, as a line without its end. -/
def headerLine (item : List UInt8 × List UInt8) : List UInt8 :=
  item.1 ++ chars ": " ++ item.2 ++ [carriageReturn]

/-- A header that can be written as a line and read again. -/
structure HeaderFits (item : List UInt8 × List UInt8) : Prop where
  noEnd_name : carriageReturn ∉ item.1 ∧ newline ∉ item.1
  noColon : ':'.toUInt8 ∉ item.1
  trimmed_name : Trimmed item.1
  noEnd_value : carriageReturn ∉ item.2 ∧ newline ∉ item.2
  trimmed_value : Trimmed item.2

instance (item : List UInt8 × List UInt8) : Decidable (HeaderFits item) :=
  decidable_of_iff
    ((carriageReturn ∉ item.1 ∧ newline ∉ item.1) ∧ ':'.toUInt8 ∉ item.1 ∧ Trimmed item.1 ∧
      (carriageReturn ∉ item.2 ∧ newline ∉ item.2) ∧ Trimmed item.2)
    ⟨fun ⟨name, colon, trimmed, value, trimmed'⟩ => ⟨name, colon, trimmed, value, trimmed'⟩,
      fun ⟨name, colon, trimmed, value, trimmed'⟩ => ⟨name, colon, trimmed, value, trimmed'⟩⟩

namespace HeaderFits

variable {item : List UInt8 × List UInt8} (h : HeaderFits item)
include h

theorem newline_notMem : newline ∉ headerLine item := by
  unfold headerLine
  have hcolon : newline ∉ chars ": " := by decide
  have hreturn : newline ∉ [carriageReturn] := by decide
  simp only [List.mem_append, not_or]
  exact ⟨⟨⟨h.noEnd_name.2, hcolon⟩, h.noEnd_value.2⟩, hreturn⟩

omit h in
theorem colon_mem (item : List UInt8 × List UInt8) : ':'.toUInt8 ∈ headerLine item := by
  have hcolon : ':'.toUInt8 ∈ chars ": " := by decide
  simp [headerLine, hcolon]

omit h in
/-- The line is not one that ends the headers. -/
theorem line_ne (item : List UInt8 × List UInt8) :
    ¬ (headerLine item = [] ∨ headerLine item = [carriageReturn]) := by
  have hcolon := colon_mem item
  rintro (heq | heq)
  · rw [heq] at hcolon
    cases hcolon
  · rw [heq] at hcolon
    exact absurd hcolon (by decide)

theorem readHeader_line (s : KeyValue.Store (List UInt8) (List UInt8) × Int32) :
    readHeader s (headerLine item) =
      (Function.update s.1 (item.1.map tolower) (some item.2),
        if item.1.map tolower = chars "content-length" then atoi item.2 else s.2) := by
  have hname : ∀ c ∈ item.1, decide (c ≠ ':'.toUInt8) = true := by
    intro c hc
    rw [decide_eq_true_iff]
    rintro rfl
    exact h.noColon hc
  have hline : headerLine item =
      item.1 ++ ':'.toUInt8 :: (([32] : List UInt8) ++ item.2 ++ [carriageReturn]) := by
    have hcolon : chars ": " = [':'.toUInt8, 32] := by decide
    simp [headerLine, hcolon]
  have hblank : ∀ c ∈ ([32] : List UInt8), isspace c = true := by
    intro c hc
    rw [List.mem_singleton.1 hc]
    rfl
  have hreturn : ∀ c ∈ [carriageReturn], isspace c = true := by
    intro c hc
    rw [List.mem_singleton.1 hc]
    rfl
  have hvalue : trim (([32] : List UInt8) ++ item.2 ++ [carriageReturn]) = item.2 :=
    trim_append hblank h.trimmed_value hreturn
  have htrim : trim item.1 = item.1 := by
    have hnone : ∀ c ∈ ([] : List UInt8), isspace c = true := by simp
    simpa using trim_append hnone h.trimmed_name hnone
  unfold readHeader
  rw [hline, List.dropWhile_append_of_pos hname, List.takeWhile_append_of_pos hname,
    List.dropWhile_cons_of_neg (by simp), List.takeWhile_cons_of_neg (by simp), List.append_nil]
  simp only [hvalue, htrim]

end HeaderFits

/-- The length of the body after a header. -/
def contentLength (nLen : Int32) (item : List UInt8 × List UInt8) : Int32 :=
  if item.1.map tolower = chars "content-length" then atoi item.2 else nLen

theorem foldl_contentLength_of_not_mem {headers : List (List UInt8 × List UInt8)}
    (h : ∀ item ∈ headers, item.1.map tolower ≠ chars "content-length") (nLen : Int32) :
    headers.foldl contentLength nLen = nLen := by
  induction headers with
  | nil => rfl
  | cons item headers ih =>
    rw [List.foldl_cons, contentLength, if_neg (h item List.mem_cons_self)]
    exact ih fun other hother => h other (List.mem_cons_of_mem _ hother)

/-- The length is that of the one header which is named so. -/
theorem foldl_contentLength_of_mem {headers : List (List UInt8 × List UInt8)}
    (hnodup : (headers.map fun item => item.1.map tolower).Nodup)
    {item : List UInt8 × List UInt8} (hitem : item ∈ headers)
    (hname : item.1.map tolower = chars "content-length") (nLen : Int32) :
    headers.foldl contentLength nLen = atoi item.2 := by
  induction headers generalizing nLen with
  | nil => cases hitem
  | cons other headers ih =>
    rw [List.map_cons, List.nodup_cons] at hnodup
    rw [List.foldl_cons]
    rcases List.mem_cons.1 hitem with rfl | hmem
    · rw [contentLength, if_pos hname]
      apply foldl_contentLength_of_not_mem
      intro later hlater heq
      exact hnodup.1 (List.mem_map.2 ⟨later, hlater, heq.trans hname.symm⟩)
    · exact ih hnodup.2 hmem _

/-- What the header lines leave: the last value for each name, and the length. -/
theorem ReadHTTPHeaders_lines {headers : List (List UInt8 × List UInt8)}
    (hfits : ∀ item ∈ headers, HeaderFits item) (rest : List UInt8)
    (s : KeyValue.Store (List UInt8) (List UInt8) × Int32) :
    ReadHTTPHeaders ⟨headers.flatMap (headerLine · ++ [newline]) ++ (crlf ++ rest), false⟩ s =
      (⟨rest, false⟩,
        KeyValue.applyBatch s.1 (headers.map fun item => (item.1.map tolower, some item.2)),
        headers.foldl contentLength s.2) := by
  induction headers generalizing s with
  | nil =>
    have hend : newline ∉ [carriageReturn] := by decide
    have hcrlf : crlf ++ rest = [carriageReturn] ++ newline :: rest := rfl
    rw [List.flatMap_nil, List.nil_append, hcrlf,
      ReadHTTPHeaders_of_getline (getline_line hend rest []), if_pos (Or.inr rfl)]
    rfl
  | cons item headers ih =>
    have hitem := hfits item List.mem_cons_self
    have htext : (item :: headers).flatMap (headerLine · ++ [newline]) ++ (crlf ++ rest) =
        headerLine item ++ newline ::
          (headers.flatMap (headerLine · ++ [newline]) ++ (crlf ++ rest)) := by
      simp
    rw [htext, ReadHTTPHeaders_of_getline (getline_line hitem.newline_notMem _ []),
      if_neg (HeaderFits.line_ne item),
      ih (fun other hother => hfits other (List.mem_cons_of_mem _ hother)), hitem.readHeader_line]
    rfl

/-! ## A request that was written -/

/-- The headers of each request, with those of one. -/
def requestHeaders (strMsg : List UInt8) (mapRequestHeaders : List (List UInt8 × List UInt8)) :
    List (List UInt8 × List UInt8) :=
  [(chars "User-Agent", chars "bitcoin-json-rpc/" ++ FormatFullVersion),
    (chars "Host", chars "127.0.0.1"),
    (chars "Content-Type", chars "application/json"),
    (chars "Content-Length", printed 10 strMsg.length),
    (chars "Connection", chars "close"),
    (chars "Accept", chars "application/json")] ++ mapRequestHeaders

/-- `"POST / HTTP/1.1"`, with the carriage return. -/
def postLine : List UInt8 := chars "POST / HTTP/1.1" ++ [carriageReturn]

theorem HTTPPost_eq (strMsg : List UInt8) (mapRequestHeaders : List (List UInt8 × List UInt8)) :
    HTTPPost strMsg mapRequestHeaders = postLine ++ newline ::
      ((requestHeaders strMsg mapRequestHeaders).flatMap (headerLine · ++ [newline]) ++
        (crlf ++ strMsg)) := by
  have hpost : chars "POST / HTTP/1.1\r\n" = postLine ++ [newline] := by decide
  have hhost : chars "Host: 127.0.0.1\r\n" =
      headerLine (chars "Host", chars "127.0.0.1") ++ [newline] := by decide
  have htype : chars "Content-Type: application/json\r\n" =
      headerLine (chars "Content-Type", chars "application/json") ++ [newline] := by decide
  have hconnection : chars "Connection: close\r\n" =
      headerLine (chars "Connection", chars "close") ++ [newline] := by decide
  have haccept : chars "Accept: application/json\r\n" =
      headerLine (chars "Accept", chars "application/json") ++ [newline] := by decide
  have hagent : chars "User-Agent: bitcoin-json-rpc/" =
      chars "User-Agent" ++ chars ": " ++ chars "bitcoin-json-rpc/" := by decide
  have hlength : chars "Content-Length: " = chars "Content-Length" ++ chars ": " := by decide
  have hcrlf : crlf = [carriageReturn] ++ [newline] := rfl
  unfold HTTPPost requestHeaders
  rw [hpost, hhost, htype, hconnection, haccept, hagent, hlength, hcrlf]
  simp only [headerLine, List.flatMap_cons, List.append_assoc, List.cons_append, List.nil_append]

theorem ReadHTTPRequestLine_postLine (rest : List UInt8) :
    ReadHTTPRequestLine ⟨postLine ++ newline :: rest, false⟩ =
      (⟨rest, false⟩, some ⟨chars "POST", chars "/", 1⟩) := by
  have hline : newline ∉ postLine := by decide
  have hwords : readWords (postLine.splitOn ' '.toUInt8) =
      some ⟨chars "POST", chars "/", 1⟩ := by decide
  rw [ReadHTTPRequestLine, getline_line hline, ← hwords]

/-- A text of digits has no white space and nothing that ends a line. -/
theorem printed_fits (n : Nat) :
    (carriageReturn ∉ printed 10 n ∧ newline ∉ printed 10 n) ∧ Trimmed (printed 10 n) := by
  have hdigit := isdigit_printed n
  refine ⟨⟨fun h => ?_, fun h => ?_⟩, fun c hc => ?_, fun c hc => ?_⟩
  · exact absurd (hdigit _ h) (by decide)
  · exact absurd (hdigit _ h) (by decide)
  · rw [← Bool.not_eq_true]
    exact fun h => not_isdigit_of_isspace h (hdigit c (List.mem_of_mem_head? hc))
  · rw [← Bool.not_eq_true]
    exact fun h => not_isdigit_of_isspace h (hdigit c (List.mem_of_getLast? hc))

/-- The headers of each request can be written. -/
theorem headerFits_requestHeaders (strMsg : List UInt8)
    {mapRequestHeaders : List (List UInt8 × List UInt8)}
    (hfits : ∀ item ∈ mapRequestHeaders, HeaderFits item) :
    ∀ item ∈ requestHeaders strMsg mapRequestHeaders, HeaderFits item := by
  obtain ⟨hends, htrimmed⟩ := printed_fits strMsg.length
  unfold requestHeaders
  intro item hitem
  rcases List.mem_append.1 hitem with hitem | hitem
  · simp only [List.mem_cons, List.not_mem_nil, or_false] at hitem
    rcases hitem with rfl | rfl | rfl | rfl | rfl | rfl
    · decide +kernel
    · decide +kernel
    · decide +kernel
    · have hname : (carriageReturn ∉ chars "Content-Length" ∧ newline ∉ chars "Content-Length") ∧
          ':'.toUInt8 ∉ chars "Content-Length" ∧ Trimmed (chars "Content-Length") := by
        decide +kernel
      exact ⟨hname.1, hname.2.1, hname.2.2, hends, htrimmed⟩
    · decide +kernel
    · decide +kernel
  · exact hfits item hitem

theorem atoi_printed {n : Nat} (hn : n < 2 ^ 31) : (atoi (printed 10 n)).toInt = n := by
  have hne : printed 10 n ≠ [] := by
    rw [printed_ten]
    simp
  have hnumeral : Numeral (printed 10 n) n :=
    ⟨[], [], printed 10 n, [], by simp, by simp, hne, isdigit_printed n, rfl,
      Or.inr ⟨Or.inl rfl, by rw [decimalValue_printed]⟩⟩
  obtain ⟨rest, hstrtol, -⟩ := hnumeral.strtol_eq
  have hsaturate : saturate n = n := by
    unfold saturate
    omega
  rw [atoi, hstrtol, hsaturate]
  exact Int32.toInt_ofInt_of_le (by omega) (by omega)

/-- A message behind its headers, if these have its length. -/
theorem ReadHTTPMessage_of_headers {stream : IStream} {body rest : List UInt8}
    {mapHeadersRet : KeyValue.Store (List UInt8) (List UInt8)} {nLen : Int32}
    (h : ReadHTTPHeaders stream (fun _ => none, 0) = (⟨body ++ rest, false⟩, mapHeadersRet, nLen))
    (hlength : nLen.toInt = body.length) (hsize : body.length ≤ MAX_SIZE.toNat) (nProto : Int32) :
    ReadHTTPMessage stream nProto =
      (⟨rest, false⟩, ⟨HTTP_OK, keepAlive nProto mapHeadersRet, body⟩) := by
  have hmax : MAX_SIZE.toInt32.toInt = MAX_SIZE.toNat := by decide
  have hzero : (0 : Int32).toInt = 0 := rfl
  have hfits : ¬ (nLen < 0 ∨ MAX_SIZE.toInt32 < nLen) := by
    rw [Int32.lt_iff_toInt_lt, Int32.lt_iff_toInt_lt]
    omega
  have hread : (if 0 < nLen then (⟨body ++ rest, false⟩ : IStream).read nLen.toInt.toNat
      else (⟨body ++ rest, false⟩, [])) = (⟨rest, false⟩, body) := by
    split
    · simp [IStream.read, hlength]
    · rename_i hpos
      rw [Int32.lt_iff_toInt_lt] at hpos
      have hnil : body = [] := List.length_eq_zero_iff.1 (by omega)
      rw [hnil, List.nil_append]
  unfold ReadHTTPMessage
  simp only [h, if_neg hfits, hread]

theorem keepAlive_of_close {mapHeadersRet : KeyValue.Store (List UInt8) (List UInt8)}
    (h : mapHeadersRet (chars "connection") = some (chars "close")) (nProto : Int32) :
    keepAlive nProto mapHeadersRet = mapHeadersRet := by
  unfold keepAlive
  simp [h]

/-- Each header by its name in lower case. -/
def headerMap (items : List (List UInt8 × List UInt8)) : KeyValue.Store (List UInt8) (List UInt8) :=
  KeyValue.applyBatch (fun _ => none) (items.map fun item => (item.1.map tolower, some item.2))

theorem headerMap_of_mem {items : List (List UInt8 × List UInt8)}
    (h : (items.map fun item => item.1.map tolower).Nodup) {item : List UInt8 × List UInt8}
    (hitem : item ∈ items) : headerMap items (item.1.map tolower) = some item.2 := by
  have hkeys : ((items.map fun item => (item.1.map tolower, some item.2)).map Prod.fst).Nodup := by
    rw [List.map_map]
    exact h
  exact KeyValue.applyBatch_of_mem hkeys (List.mem_map.2 ⟨item, hitem, rfl⟩)

theorem headerMap_of_not_mem {items : List (List UInt8 × List UInt8)} {name : List UInt8}
    (h : ∀ item ∈ items, item.1.map tolower ≠ name) : headerMap items name = none := by
  rw [headerMap, KeyValue.applyBatch_of_not_mem]
  intro entry hentry
  obtain ⟨item, hitem, rfl⟩ := List.mem_map.1 hentry
  exact h item hitem

/-- **A request is read back.** The request line and the message are those that were written, each
header under its name in lower case, and the stream is left at what is behind the request. -/
theorem ReadHTTP_HTTPPost {strMsg : List UInt8} (hsize : strMsg.length ≤ MAX_SIZE.toNat)
    {mapRequestHeaders : List (List UInt8 × List UInt8)}
    (hfits : ∀ item ∈ mapRequestHeaders, HeaderFits item)
    (hnoClash : ((requestHeaders strMsg mapRequestHeaders).map
      fun item => item.1.map tolower).Nodup) (rest : List UInt8) :
    ∃ stream mapHeadersRet,
      ReadHTTPRequestLine ⟨HTTPPost strMsg mapRequestHeaders ++ rest, false⟩ =
        (stream, some ⟨chars "POST", chars "/", 1⟩) ∧
      ReadHTTPMessage stream 1 = (⟨rest, false⟩, ⟨HTTP_OK, mapHeadersRet, strMsg⟩) ∧
      (∀ item ∈ requestHeaders strMsg mapRequestHeaders,
        mapHeadersRet (item.1.map tolower) = some item.2) ∧
      ∀ name, (∀ item ∈ requestHeaders strMsg mapRequestHeaders, item.1.map tolower ≠ name) →
        mapHeadersRet name = none := by
  have hmax : MAX_SIZE.toNat = 0x02000000 := rfl
  have hall := headerFits_requestHeaders strMsg hfits
  have hlength : (requestHeaders strMsg mapRequestHeaders).foldl contentLength 0 =
      atoi (printed 10 strMsg.length) :=
    foldl_contentLength_of_mem hnoClash
      (show (chars "Content-Length", printed 10 strMsg.length) ∈ _ by simp [requestHeaders])
      (show (chars "Content-Length").map tolower = chars "content-length" by decide) 0
  have hvalue := atoi_printed (n := strMsg.length) (by omega)
  have hmem : ∀ item ∈ requestHeaders strMsg mapRequestHeaders,
      headerMap (requestHeaders strMsg mapRequestHeaders) (item.1.map tolower) = some item.2 :=
    fun item hitem => headerMap_of_mem hnoClash hitem
  refine ⟨⟨(requestHeaders strMsg mapRequestHeaders).flatMap (headerLine · ++ [newline]) ++
    (crlf ++ (strMsg ++ rest)), false⟩, headerMap (requestHeaders strMsg mapRequestHeaders),
    ?_, ?_, hmem, fun name hname => headerMap_of_not_mem hname⟩
  · have htext : HTTPPost strMsg mapRequestHeaders ++ rest = postLine ++ newline ::
        ((requestHeaders strMsg mapRequestHeaders).flatMap (headerLine · ++ [newline]) ++
          (crlf ++ (strMsg ++ rest))) := by
      rw [HTTPPost_eq]
      simp only [List.append_assoc, List.cons_append]
    rw [htext]
    exact ReadHTTPRequestLine_postLine _
  · have hconnection := hmem (chars "Connection", chars "close") (by simp [requestHeaders])
    have hname : (chars "Connection").map tolower = chars "connection" := by decide
    have hread := ReadHTTPHeaders_lines hall (strMsg ++ rest) (fun _ => none, 0)
    rw [← headerMap, hlength] at hread
    rw [ReadHTTPMessage_of_headers hread hvalue hsize, keepAlive_of_close (hname ▸ hconnection)]

theorem ReadHTTP_HTTPPost_authorized :
    ∃ stream mapHeadersRet,
      ReadHTTPRequestLine
          ⟨HTTPPost (chars "a\r\n\r\n") [(chars "Authorization", chars "Basic YQ==")] ++
            chars "POST", false⟩ = (stream, some ⟨chars "POST", chars "/", 1⟩) ∧
      ReadHTTPMessage stream 1 =
        (⟨chars "POST", false⟩, ⟨HTTP_OK, mapHeadersRet, chars "a\r\n\r\n"⟩) ∧
      (∀ item ∈ requestHeaders (chars "a\r\n\r\n") [(chars "Authorization", chars "Basic YQ==")],
        mapHeadersRet (item.1.map tolower) = some item.2) ∧
      ∀ name, (∀ item ∈ requestHeaders (chars "a\r\n\r\n")
          [(chars "Authorization", chars "Basic YQ==")], item.1.map tolower ≠ name) →
        mapHeadersRet name = none := by
  refine ReadHTTP_HTTPPost (by decide) (fun item hitem => ?_) (by decide +kernel) _
  rw [List.mem_singleton.1 hitem]
  decide +kernel

end TriTip
