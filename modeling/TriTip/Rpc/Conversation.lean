import TriTip.Rpc.HttpReply

/-!
# A client and the server

What the one writes the other reads: a request that `CallRPC` posts is executed with the method and
the parameters that were given, and the client gets the reply (`CallRPC_ServiceConnection`); with
another password nothing is executed. On a connection that is kept alive the requests are answered
in order, until the first error (`ServiceConnection_answers`).
-/

namespace TriTip

variable {ρ σ : Type}

/-! ## What the server answers -/

namespace RPCServer

/-- The status that goes with what came out of an execution. -/
def outcomeStatus : Except (Thrown ρ) (Value ρ) → Int32
  | .ok _ => HTTP_OK
  | .error e => ((errorCode (caught e)).map errorStatus).getD HTTP_INTERNAL_SERVER_ERROR

variable (R : RPCServer σ ρ)

/-- The answer to a JSON value: a status and a JSON value. -/
def answer (req : Value ρ) (s : σ) : (Int32 × Value ρ) × σ :=
  match req with
  | .array vReq =>
    let (ret, s') := R.execBatch vReq s
    ((HTTP_OK, .array ret), s')
  | .obj request =>
    let (id, parsed) := JSONRequest.parse (.obj request)
    let (outcome, s') := R.executeParsed parsed s
    ((outcomeStatus outcome, .obj (replyObj id outcome)), s')
  | _ =>
    let outcome : Except (Thrown ρ) (Value ρ) := .error (parseError "Top-level object parse error")
    ((outcomeStatus outcome, .obj (replyObj .null outcome)), s)

/-- The answers to one value after another, up to the first error or the first request after which
the connection is closed. The flag is whether the client keeps the connection. -/
def answers : List (Value ρ × Bool) → σ → List ((Int32 × Value ρ) × Bool) × σ
  | [], s => ([], s)
  | (req, keep) :: reqs, s =>
    let (a, s') := R.answer req s
    if a.1 = HTTP_OK ∧ keep = true then
      let (as, s'') := answers reqs s'
      ((a, true) :: as, s'')
    else ([(a, false)], s')

/-- The error objects that a command throws have a code. -/
def ThrowsCodes : Prop :=
  ∀ pcmd ∈ R.vRPCCommands, ∀ params s objError s',
    pcmd.actor params s = (.error (.object objError), s') → (errorCode objError).isSome = true

/-- The text of an answer. -/
def answerText (a : Int32 × Value ρ) (keepalive : Bool) : List UInt8 :=
  HTTPReply R.rfc1123Time a.1 (write_string R.platform false a.2 ++ [newline]) keepalive

variable {R}

theorem errorCode_JSONRPCError (code : Int) (message : List UInt8) :
    errorCode (JSONRPCError code message : Object ρ) = some (Int64.ofInt code).toInt32 := rfl

theorem errorCode_execute (h : R.ThrowsCodes) {strMethod : List UInt8} {params : List (Value ρ)}
    {s s' : σ} {e : Thrown ρ} (he : R.execute strMethod params s = (.error e, s')) :
    (errorCode (caught e)).isSome = true := by
  unfold execute at he
  split at he
  · obtain ⟨he, -⟩ := Prod.mk.inj he
    obtain rfl := Except.error.inj he
    rfl
  · next pcmd hpcmd =>
    have hmem : pcmd ∈ R.vRPCCommands := List.mem_reverse.1 (List.mem_of_find?_eq_some hpcmd)
    split at he
    · obtain ⟨he, -⟩ := Prod.mk.inj he
      obtain rfl := Except.error.inj he
      rfl
    · split at he
      · obtain ⟨he, -⟩ := Prod.mk.inj he
        obtain rfl := Except.error.inj he
        rfl
      · next hactor =>
        cases e with
        | object objError => exact h pcmd hmem params s objError s' he
        | exception what => rfl

theorem errorCode_parse {req id : Value ρ} {e : Thrown ρ}
    (h : JSONRequest.parse req = (id, .error e)) : (errorCode (caught e)).isSome = true := by
  have hinvalid : ∀ message, (errorCode (caught (invalidRequest message : Thrown ρ))).isSome =
      true := fun _ => rfl
  unfold JSONRequest.parse at h
  split at h
  · obtain ⟨-, h⟩ := Prod.mk.inj h
    split at h
    · obtain rfl := Except.error.inj h
      exact hinvalid _
    · unfold JSONRequest.parseParams at h
      split at h
      · cases h
      · cases h
      · obtain rfl := Except.error.inj h
        exact hinvalid _
    · obtain rfl := Except.error.inj h
      exact hinvalid _
  · obtain ⟨-, h⟩ := Prod.mk.inj h
    obtain rfl := Except.error.inj h
    exact hinvalid _

/-- Whatever is thrown for a request, the reply has a code. -/
theorem errorCode_executeParsed (h : R.ThrowsCodes) {req : Value ρ} {s s' : σ} {e : Thrown ρ}
    (he : R.executeParsed (JSONRequest.parse req).2 s = (.error e, s')) :
    (errorCode (caught e)).isSome = true := by
  unfold executeParsed at he
  split at he
  · exact errorCode_execute h he
  · next e' hparse =>
    obtain ⟨he, -⟩ := Prod.mk.inj he
    obtain rfl := Except.error.inj he
    exact errorCode_parse (Prod.ext rfl hparse)

theorem outcomeStatus_error (e : Thrown ρ) :
    outcomeStatus (.error e : Except (Thrown ρ) (Value ρ)) ≠ HTTP_OK ∧
      Answered (outcomeStatus (.error e : Except (Thrown ρ) (Value ρ))) := by
  simp only [outcomeStatus]
  cases errorCode (caught e) with
  | none => exact ⟨by decide, Or.inr (Or.inr (Or.inr rfl))⟩
  | some code =>
    rw [Option.map_some, Option.getD_some, errorStatus]
    split
    · exact ⟨by decide, Or.inr (Or.inl rfl)⟩
    · split
      · exact ⟨by decide, Or.inr (Or.inr (Or.inl rfl))⟩
      · exact ⟨by decide, Or.inr (Or.inr (Or.inr rfl))⟩

theorem answered_outcomeStatus (outcome : Except (Thrown ρ) (Value ρ)) :
    Answered (outcomeStatus outcome) := by
  cases outcome with
  | ok result => exact Or.inl rfl
  | error e => exact (outcomeStatus_error e).2

theorem answered_answer (req : Value ρ) (s : σ) : Answered (R.answer req s).1.1 := by
  cases req with
  | array vReq => exact Or.inl rfl
  | obj request => exact answered_outcomeStatus _
  | _ => exact @answered_outcomeStatus ρ (.error (parseError "Top-level object parse error"))

/-- The error reply, when there is a code. -/
theorem ErrorReply_eq {e : Thrown ρ} (h : (errorCode (caught e)).isSome = true) (id : Value ρ) :
    ErrorReply R (caught e) id =
      some (R.answerText (outcomeStatus (.error e), .obj (replyObj id (.error e))) false) := by
  obtain ⟨code, hcode⟩ := Option.isSome_iff_exists.1 h
  rw [ErrorReply, outcomeStatus, hcode]
  rfl

/-- The `try` block comes to the answer, or throws what the answer is for. -/
theorem handle_answer (hR : R.ThrowsCodes) {body : List UInt8} {req : Value ρ}
    (hread : R.readRequest body = some req) (s : σ) :
    (∃ id, (R.answer req s).1.1 = HTTP_OK ∧ R.handle body s =
      (id, .ok (write_string R.platform false (R.answer req s).1.2 ++ [newline]),
        (R.answer req s).2)) ∨
    ∃ id e, (errorCode (caught e)).isSome = true ∧
      (R.answer req s).1 = (outcomeStatus (.error e : Except (Thrown ρ) (Value ρ)),
        .obj (replyObj id (.error e))) ∧
      R.handle body s = (id, .error e, (R.answer req s).2) := by
  unfold RPCServer.handle
  rw [hread]
  cases req with
  | array vReq => exact Or.inl ⟨.null, rfl, rfl⟩
  | obj request =>
    simp only [answer]
    cases h : R.executeParsed (JSONRequest.parse (.obj request)).2 s with
    | mk outcome s' =>
      cases outcome with
      | ok result => exact Or.inl ⟨_, rfl, rfl⟩
      | error e => exact Or.inr ⟨_, e, errorCode_executeParsed hR h, rfl, rfl⟩
  | _ => exact Or.inr ⟨.null, parseError "Top-level object parse error", rfl, rfl, rfl⟩

/-- **A request with the right password** whose body is a JSON value is answered. -/
theorem serveMessage_answer (hR : R.ThrowsCodes)
    {mapHeaders : KeyValue.Store (List UInt8) (List UInt8)}
    (hauth : mapHeaders (chars "authorization") =
      some (chars "Basic " ++ EncodeBase64 R.strRPCUserColonPass)) {body : List UInt8}
    {req : Value ρ}
    (hread : R.readRequest body = some req) (stream : IStream) (s : σ) {keep : Bool}
    (hkeep : keep = decide (mapHeaders (chars "connection") ≠ some (chars "close"))) :
    serveMessage R (chars "/") ⟨HTTP_OK, mapHeaders, body⟩ stream s =
      if (R.answer req s).1.1 = HTTP_OK then
        ⟨R.answerText (R.answer req s).1 keep, (R.answer req s).2, false,
          if keep then some stream else none⟩
      else ⟨R.answerText (R.answer req s).1 false, (R.answer req s).2, false, none⟩ := by
  have hsome : ¬(mapHeaders (chars "authorization") = none ∨
      HTTPAuthorized R.strRPCUserColonPass mapHeaders = false) := by
    rw [hauth, (HTTPAuthorized_iff hauth).2 rfl]
    simp
  subst hkeep
  rw [serveMessage, if_neg (by simp), if_neg hsome]
  rcases handle_answer hR hread s with ⟨id, hok, hhandle⟩ | ⟨id, e, hcode, hanswer, hhandle⟩
  · rw [hhandle, if_pos hok, answerText, hok]
    simp only [decide_eq_true_eq]
  · have hne : (R.answer req s).1.1 ≠ HTTP_OK := by
      rw [hanswer]
      exact (outcomeStatus_error e).1
    rw [hhandle, if_neg hne]
    simp only [ErrorReply_eq hcode, hanswer]

section Answers

variable {req : Value ρ} {keep : Bool} {s : σ}

theorem answers_cons (h : (R.answer req s).1.1 = HTTP_OK ∧ keep = true)
    (reqs : List (Value ρ × Bool)) :
    R.answers ((req, keep) :: reqs) s =
      (((R.answer req s).1, true) :: (R.answers reqs (R.answer req s).2).1,
        (R.answers reqs (R.answer req s).2).2) := by
  rw [answers]
  exact if_pos h

theorem answers_last (h : ¬((R.answer req s).1.1 = HTTP_OK ∧ keep = true))
    (reqs : List (Value ρ × Bool)) :
    R.answers ((req, keep) :: reqs) s = ([((R.answer req s).1, false)], (R.answer req s).2) := by
  rw [answers]
  exact if_neg h

end Answers

/-- A request of a client that knows the password. -/
structure Post (R : RPCServer σ ρ) where
  headers : List (List UInt8 × List UInt8)
  body : List UInt8
  req : Value ρ
  framed : Framed headers body
  authorized :
    (chars "Authorization", chars "Basic " ++ EncodeBase64 R.strRPCUserColonPass) ∈ headers
  reads : R.readRequest body = some req

namespace Post

variable (post : Post R)

/-- The connection is kept, unless the client says otherwise. -/
def keep : Bool := headerMap post.headers (chars "connection") ≠ some (chars "close")

theorem keep_eq : post.keep =
    decide (keepAlive 1 (headerMap post.headers) (chars "connection") ≠ some (chars "close")) := by
  have hne : some (chars "keep-alive") ≠ some (chars "close") := by decide
  have hnil : ([] : List UInt8) ≠ chars "close" ∧ ([] : List UInt8) ≠ chars "keep-alive" := by
    decide
  rw [keep, decide_eq_decide, keepAlive]
  cases h : headerMap post.headers (chars "connection") with
  | none =>
    rw [Option.getD_none, if_pos hnil, if_pos (by decide), Function.update_self]
    simp [hne]
  | some value =>
    rw [Option.getD_some]
    split
    · next hvalue =>
      rw [if_pos (by decide), Function.update_self]
      simp [hne, hvalue.1]
    · rw [h]

/-- The first round of the server. -/
theorem serveRequest_eq (hR : R.ThrowsCodes) (rest : List UInt8) (s : σ) :
    serveRequest R ⟨httpRequest post.headers post.body ++ rest, false⟩ s =
      if (R.answer post.req s).1.1 = HTTP_OK then
        ⟨R.answerText (R.answer post.req s).1 post.keep, (R.answer post.req s).2, false,
          if post.keep then some ⟨rest, false⟩ else none⟩
      else ⟨R.answerText (R.answer post.req s).1 false, (R.answer post.req s).2, false, none⟩ := by
  have hname : (chars "Authorization").map tolower = chars "authorization" := by decide
  have hauth : keepAlive 1 (headerMap post.headers) (chars "authorization") =
      some (chars "Basic " ++ EncodeBase64 R.strRPCUserColonPass) := by
    rw [keepAlive_of_ne (by decide), ← hname]
    exact headerMap_of_mem post.framed.nodup post.authorized
  rw [serveRequest_httpRequest post.framed]
  exact serveMessage_answer hR hauth post.reads _ s post.keep_eq

end Post

theorem ServiceConnection_of_none {stream : IStream} {s : σ}
    (h : (serveRequest R stream s).next = none) :
    ServiceConnection R stream s = ((serveRequest R stream s).out, (serveRequest R stream s).state,
      (serveRequest R stream s).uncaught) := by
  rw [ServiceConnection]
  split
  · rfl
  · next hnext => simp [h] at hnext

theorem ServiceConnection_of_some {stream stream' : IStream} {s : σ}
    (h : (serveRequest R stream s).next = some stream') :
    ServiceConnection R stream s =
      ((serveRequest R stream s).out ++
        (ServiceConnection R stream' (serveRequest R stream s).state).1,
        (ServiceConnection R stream' (serveRequest R stream s).state).2) := by
  rw [ServiceConnection]
  split
  · next hnext => simp [h] at hnext
  · next hnext =>
    rw [h] at hnext
    obtain rfl := Option.some.inj hnext
    rfl

/-- Nothing is answered when the client is gone. -/
theorem ServiceConnection_nil (s : σ) : ServiceConnection R ⟨[], false⟩ s = ([], s, false) := by
  have hserved : serveRequest R ⟨[], false⟩ s = ⟨[], s, false, none⟩ := rfl
  rw [ServiceConnection_of_none (by rw [hserved]), hserved]

/-- **The run of a connection**: the requests are answered one after another. -/
theorem ServiceConnection_posts (hR : R.ThrowsCodes) (posts : List (Post R)) (s : σ) :
    ServiceConnection R
        ⟨posts.flatMap fun post => httpRequest post.headers post.body, false⟩ s =
      ((R.answers (posts.map fun post => (post.req, post.keep)) s).1.flatMap
        fun a => R.answerText a.1 a.2,
        (R.answers (posts.map fun post => (post.req, post.keep)) s).2, false) := by
  induction posts generalizing s with
  | nil => exact ServiceConnection_nil s
  | cons post posts ih =>
    have hround := post.serveRequest_eq hR
      (posts.flatMap fun post => httpRequest post.headers post.body) s
    rw [List.flatMap_cons, List.map_cons]
    by_cases h : (R.answer post.req s).1.1 = HTTP_OK ∧ post.keep = true
    · rw [if_pos h.1, h.2, if_pos rfl] at hround
      rw [ServiceConnection_of_some (congrArg Served.next hround), hround, ih, answers_cons h]
      rfl
    · have hclosed : serveRequest R ⟨httpRequest post.headers post.body ++
          posts.flatMap fun post => httpRequest post.headers post.body, false⟩ s =
          ⟨R.answerText (R.answer post.req s).1 false, (R.answer post.req s).2, false, none⟩ := by
        rw [hround]
        split
        · next hok =>
          have hkeep : post.keep = false := Bool.eq_false_iff.2 fun hkeep => h ⟨hok, hkeep⟩
          rw [hkeep]
          rfl
        · rfl
      rw [ServiceConnection_of_none (congrArg Served.next hclosed), hclosed, answers_last h]
      simp

/-! ## What the client reads -/

theorem readRequest_write_string (v : Value ρ) :
    R.readRequest (write_string R.platform false v ++ [newline]) = some (v.reread R.platform) := by
  have hstops : Stops [newline] := fun _ h => Option.some.inj h ▸ by decide
  rw [readRequest, read_string_of_reads (Json_grammar.reads_output _ false v) .null hstops]

/-- A text of an answer that the other side accepts. -/
def Short (R : RPCServer σ ρ) (v : Value ρ) : Prop :=
  (write_string R.platform false v).length < MAX_SIZE.toNat

/-- An answer is read back, and the stream is left behind it. -/
theorem ReadHTTP_answerText (hzero : R.platform.iswprint 0 = false)
    (htime : HeaderFits (chars "Date", R.rfc1123Time)) {a : Int32 × Value ρ} (ha : Answered a.1)
    (hshort : R.Short a.2) (keepalive : Bool) (rest : List UInt8) :
    ∃ stream mapHeaders,
      ReadHTTPStatus ⟨R.answerText a keepalive ++ rest, false⟩ = (stream, 1, a.1) ∧
      ReadHTTPMessage stream 1 =
        (⟨rest, false⟩, ⟨HTTP_OK, mapHeaders, write_string R.platform false a.2 ++ [newline]⟩) := by
  have hnewline : (0 : UInt8) ∉ [newline] := by decide
  have hmsg : (0 : UInt8) ∉ write_string R.platform false a.2 ++ [newline] := fun hmem =>
    (List.mem_append.1 hmem).elim (zero_notMem_output hzero a.2 0) hnewline
  have hsize : (write_string R.platform false a.2 ++ [newline]).length ≤ MAX_SIZE.toNat := by
    rw [List.length_append]
    exact hshort
  exact ReadHTTP_HTTPReply htime ha hmsg hsize keepalive rest

/-- The next replies on a stream: their statuses and the values in them. -/
def readReplies (R : RPCServer σ ρ) : Nat → IStream → List (Int32 × Option (Value ρ))
  | 0, _ => []
  | n + 1, stream =>
    let (stream, nProto, nStatus) := ReadHTTPStatus stream
    let (stream, message) := ReadHTTPMessage stream nProto
    (nStatus, R.readRequest message.strMessageRet) :: readReplies R n stream

theorem readReplies_answers (hzero : R.platform.iswprint 0 = false)
    (htime : HeaderFits (chars "Date", R.rfc1123Time)) (as : List ((Int32 × Value ρ) × Bool))
    (has : ∀ a ∈ as, Answered a.1.1 ∧ R.Short a.1.2) :
    R.readReplies as.length ⟨as.flatMap fun a => R.answerText a.1 a.2, false⟩ =
      as.map fun a => (a.1.1, some (a.1.2.reread R.platform)) := by
  induction as with
  | nil => rfl
  | cons a as ih =>
    obtain ⟨ha, has⟩ := List.forall_mem_cons.1 has
    obtain ⟨stream, mapHeaders, hstatus, hmessage⟩ := ReadHTTP_answerText hzero htime ha.1 ha.2 a.2
      (as.flatMap fun a => R.answerText a.1 a.2)
    rw [List.flatMap_cons, List.length_cons, readReplies, hstatus]
    simp only [hmessage, readRequest_write_string, ih has, List.map_cons]

theorem answered_answers (reqs : List (Value ρ × Bool)) (s : σ) :
    ∀ a ∈ (R.answers reqs s).1, Answered a.1.1 := by
  induction reqs generalizing s with
  | nil => exact List.forall_mem_nil _
  | cons r reqs ih =>
    obtain ⟨req, keep⟩ := r
    by_cases h : (R.answer req s).1.1 = HTTP_OK ∧ keep = true
    · rw [answers_cons h]
      exact List.forall_mem_cons.2 ⟨answered_answer req s, ih _⟩
    · rw [answers_last h]
      exact List.forall_mem_singleton.2 (answered_answer req s)

theorem readResponse_answerText (hzero : R.platform.iswprint 0 = false)
    (htime : HeaderFits (chars "Date", R.rfc1123Time)) {nStatus : Int32} {reply : Object ρ}
    (hstatus : Answered nStatus) (hne : reply ≠ []) (hshort : R.Short (.obj reply))
    (keepalive : Bool) :
    readResponse R.platform ⟨R.answerText (nStatus, .obj reply) keepalive, false⟩ =
      .ok (reply.map fun p => (p.1, p.2.reread R.platform)) := by
  have hread := ReadHTTP_answerText (a := (nStatus, .obj reply)) hzero htime hstatus hshort
    keepalive
    []
  obtain ⟨stream, mapHeaders, hread, hmessage⟩ := hread
  rw [List.append_nil] at hread
  have hauthorized : nStatus ≠ HTTP_UNAUTHORIZED := by
    rcases hstatus with rfl | rfl | rfl | rfl <;> decide
  have hreplies : repliesWith nStatus := by
    rcases hstatus with rfl | rfl | rfl | rfl <;> decide
  have hstops : Stops [newline] := fun _ h => Option.some.inj h ▸ by decide
  have hobj : (Value.obj reply).reread R.platform =
      .obj (reply.map fun p => (p.1, p.2.reread R.platform)) := by
    rw [Value.reread, Value.map, Value.mapPairs_eq]
  rw [readResponse, hread]
  simp only [hmessage, if_neg hauthorized, if_neg (not_not.2 hreplies)]
  rw [if_neg (by simp), readReply,
    read_string_of_reads (Json_grammar.reads_output _ false (.obj reply)) .null hstops, hobj]
  simp [hne]

/-- **A connection that is kept alive**: the replies that a client reads off it are the answers to
its requests, in their order, and the node is left as the requests leave it. -/
theorem ServiceConnection_answers (hR : R.ThrowsCodes) (hzero : R.platform.iswprint 0 = false)
    (htime : HeaderFits (chars "Date", R.rfc1123Time)) (posts : List (Post R)) (s : σ)
    (hshort : ∀ a ∈ (R.answers (posts.map fun post => (post.req, post.keep)) s).1,
      R.Short a.1.2) :
    ∃ out,
      ServiceConnection R
          ⟨posts.flatMap fun post => httpRequest post.headers post.body, false⟩ s =
        (out, (R.answers (posts.map fun post => (post.req, post.keep)) s).2, false) ∧
      R.readReplies (R.answers (posts.map fun post => (post.req, post.keep)) s).1.length
          ⟨out, false⟩ =
        (R.answers (posts.map fun post => (post.req, post.keep)) s).1.map
          fun a => (a.1.1, some (a.1.2.reread R.platform)) :=
  ⟨_, ServiceConnection_posts hR posts s,
    readReplies_answers hzero htime _ fun a ha => ⟨answered_answers _ _ a ha, hshort a ha⟩⟩

/-! ## A call -/

section Call

variable {C : RPCClient ρ}

/-- What the client posts. -/
def callText (C : RPCClient ρ) (strMethod : List UInt8) (params : List (Value ρ)) : List UInt8 :=
  HTTPPost (JSONRPCRequest C.platform strMethod params (.int 1 false)) [authorization C]

theorem framed_call (C : RPCClient ρ) {body : List UInt8} (hsize : body.length ≤ MAX_SIZE.toNat) :
    Framed (requestHeaders body [authorization C]) body := by
  have hfits : ∀ item ∈ [authorization C], HeaderFits item :=
    List.forall_mem_singleton.2 (HeaderFits_authorization C)
  refine ⟨headerFits_requestHeaders body hfits, ?_, by simp [requestHeaders], hsize⟩
  have hnames : (requestHeaders body [authorization C]).map (fun item => item.1.map tolower) =
      [chars "User-Agent", chars "Host", chars "Content-Type", chars "Content-Length",
        chars "Connection", chars "Accept", chars "Authorization"].map (List.map tolower) := rfl
  rw [hnames]
  decide +kernel

theorem requestObj_reread (P : Platform ρ) (strMethod : List UInt8) (params : List (Value ρ)) :
    (Value.obj (requestObj strMethod params (.int 1 false))).reread P =
      .obj (requestObj strMethod (params.map (Value.reread P)) (.int 1 false)) := by
  simp [Value.reread, Value.map, Value.mapPairs_eq, Value.mapElements_eq, requestObj]

theorem parse_requestObj (strMethod : List UInt8) (params : List (Value ρ)) (id : Value ρ) :
    JSONRequest.parse (.obj (requestObj strMethod params id)) = (id, .ok (strMethod, params)) := rfl

/-- The body that the client posts is the request with what was read of the parameters. -/
theorem readRequest_JSONRPCRequest (hplatform : C.platform = R.platform) (strMethod : List UInt8)
    (params : List (Value ρ)) :
    R.readRequest (JSONRPCRequest C.platform strMethod params (.int 1 false)) =
      some (.obj (requestObj strMethod (params.map (Value.reread R.platform)) (.int 1 false))) := by
  rw [JSONRPCRequest, hplatform, readRequest_write_string, requestObj_reread]

theorem CallRPC_eq (hset : ¬(C.rpcuser = [] ∧ C.rpcpassword = []))
    (exchange : List UInt8 → List UInt8) (strMethod : List UInt8) (params : List (Value ρ)) :
    CallRPC C exchange strMethod params =
      readResponse C.platform ⟨exchange (callText C strMethod params), false⟩ := by
  rw [CallRPC, if_neg hset]
  rfl

theorem readResponse_unauthorized (P : Platform ρ) (rfc1123Time : List UInt8) :
    readResponse P ⟨HTTPReply rfc1123Time HTTP_UNAUTHORIZED [] false, false⟩ =
      .error (chars "incorrect rpcuser or rpcpassword (authorization failed)") := by
  have hline : chars "HTTP/1.0 401 Authorization Required\r\n" =
      chars "HTTP/1.0 401 Authorization Required\r" ++ [newline] := by decide
  have hnot : newline ∉ chars "HTTP/1.0 401 Authorization Required\r" := by decide
  have hsplit : (chars "HTTP/1.0 401 Authorization Required\r").splitOn ' '.toUInt8 =
      [chars "HTTP/1.0", chars "401", chars "Authorization", chars "Required\r"] := by decide
  have hstatus : atoi (c_str (chars "401")) = HTTP_UNAUTHORIZED := by decide
  obtain ⟨rest, hrest⟩ : ∃ rest, HTTPReply rfc1123Time HTTP_UNAUTHORIZED [] false =
      chars "HTTP/1.0 401 Authorization Required\r" ++ newline :: rest := by
    rw [HTTPReply, if_pos rfl, unauthorizedReply, hline]
    simp only [List.append_assoc, List.singleton_append]
    exact ⟨_, rfl⟩
  rw [readResponse, hrest, ReadHTTPStatus, getline_line hnot]
  simp only [hsplit, hstatus, if_true]

theorem answer_requestObj (strMethod : List UInt8) (params : List (Value ρ)) (id : Value ρ)
    (s : σ) :
    R.answer (.obj (requestObj strMethod params id)) s =
      ((outcomeStatus (R.execute strMethod params s).1,
        .obj (replyObj id (R.execute strMethod params s).1)),
        (R.execute strMethod params s).2) := rfl

theorem replyObj_ne_nil (id : Value ρ) (outcome : Except (Thrown ρ) (Value ρ)) :
    replyObj id outcome ≠ [] := by
  cases outcome <;> exact List.cons_ne_nil _ _

theorem headerMap_call (C : RPCClient ρ) {body : List UInt8}
    (hsize : body.length ≤ MAX_SIZE.toNat) :
    headerMap (requestHeaders body [authorization C]) (chars "connection") = some (chars "close") ∧
      headerMap (requestHeaders body [authorization C]) (chars "authorization") =
        some (chars "Basic " ++ EncodeBase64 (C.rpcuser ++ ':'.toUInt8 :: C.rpcpassword)) := by
  have hnodup := (framed_call C hsize).nodup
  have hconnection : (chars "Connection").map tolower = chars "connection" := by decide
  have hauthorization : (chars "Authorization").map tolower = chars "authorization" := by decide
  constructor
  · rw [← hconnection]
    have hmem : (chars "Connection", chars "close") ∈ requestHeaders body [authorization C] := by
      simp [requestHeaders]
    exact headerMap_of_mem hnodup hmem
  · rw [← hauthorization]
    have hmem : authorization C ∈ requestHeaders body [authorization C] := by simp [requestHeaders]
    exact headerMap_of_mem hnodup hmem

/-- The server's side of a call with the right password. -/
theorem ServiceConnection_call (hR : R.ThrowsCodes) {body : List UInt8}
    (hsize : body.length ≤ MAX_SIZE.toNat) {req : Value ρ} (hread : R.readRequest body = some req)
    (hpassword : C.rpcuser ++ ':'.toUInt8 :: C.rpcpassword = R.strRPCUserColonPass) (s : σ) :
    ServiceConnection R ⟨HTTPPost body [authorization C], false⟩ s =
      (R.answerText (R.answer req s).1 false, (R.answer req s).2, false) := by
  have hmem : (chars "Authorization", chars "Basic " ++ EncodeBase64 R.strRPCUserColonPass) ∈
      requestHeaders body [authorization C] := by
    simp [requestHeaders, authorization, hpassword]
  have hrun := ServiceConnection_posts hR
    [⟨requestHeaders body [authorization C], body, req, framed_call C hsize, hmem, hread⟩] s
  have hkeep : ¬((R.answer req s).1.1 = HTTP_OK ∧ decide (headerMap
      (requestHeaders body [authorization C]) (chars "connection") ≠ some (chars "close")) =
        true) := by
    simp [(headerMap_call C hsize).1]
  simp only [List.flatMap_singleton, List.map_singleton, Post.keep, answers_last hkeep] at hrun
  rwa [httpRequest, ← HTTPPost_eq] at hrun

/-- The server's side of a call with another password. -/
theorem ServiceConnection_unauthorized {body : List UInt8} (hsize : body.length ≤ MAX_SIZE.toNat)
    (hpassword : C.rpcuser ++ ':'.toUInt8 :: C.rpcpassword ≠ R.strRPCUserColonPass) (s : σ) :
    ServiceConnection R ⟨HTTPPost body [authorization C], false⟩ s =
      (HTTPReply R.rfc1123Time HTTP_UNAUTHORIZED [] false, s, false) := by
  have hround := serveRequest_httpRequest (framed_call C hsize) R [] s
  have hauth : keepAlive 1 (headerMap (requestHeaders body [authorization C]))
      (chars "authorization") =
        some (chars "Basic " ++ EncodeBase64 (C.rpcuser ++ ':'.toUInt8 :: C.rpcpassword)) := by
    rw [keepAlive_of_ne (by decide), (headerMap_call C hsize).2]
  have hfalse : HTTPAuthorized R.strRPCUserColonPass
      (keepAlive 1 (headerMap (requestHeaders body [authorization C]))) = false :=
    Bool.eq_false_iff.2 fun h => hpassword ((HTTPAuthorized_iff hauth).1 h)
  rw [List.append_nil, httpRequest, ← HTTPPost_eq, serveMessage, if_neg (by simp),
    if_pos (Or.inr hfalse)] at hround
  rw [ServiceConnection_of_none (by rw [hround]), hround]

/-- **A call through the server.** With the password of the server the command is executed with the
parameters as they were read, once, and the client gets its reply; with any other password the
client is told so and the node stays as it is. -/
theorem CallRPC_ServiceConnection (hplatform : C.platform = R.platform) (hR : R.ThrowsCodes)
    (hzero : R.platform.iswprint 0 = false) (htime : HeaderFits (chars "Date", R.rfc1123Time))
    (hset : ¬(C.rpcuser = [] ∧ C.rpcpassword = [])) (strMethod : List UInt8)
    (params : List (Value ρ)) (s : σ)
    (hrequest : (JSONRPCRequest C.platform strMethod params (.int 1 false)).length ≤ MAX_SIZE.toNat)
    (hreply : R.Short (.obj (replyObj (.int 1 false)
      (R.execute strMethod (params.map (Value.reread R.platform)) s).1))) :
    (C.rpcuser ++ ':'.toUInt8 :: C.rpcpassword = R.strRPCUserColonPass →
      CallRPC C (fun text => (ServiceConnection R ⟨text, false⟩ s).1) strMethod params =
        .ok ((replyObj (.int 1 false)
          (R.execute strMethod (params.map (Value.reread R.platform)) s).1).map
            fun p => (p.1, p.2.reread R.platform)) ∧
      (ServiceConnection R ⟨callText C strMethod params, false⟩ s).2 =
        ((R.execute strMethod (params.map (Value.reread R.platform)) s).2, false)) ∧
    (C.rpcuser ++ ':'.toUInt8 :: C.rpcpassword ≠ R.strRPCUserColonPass →
      CallRPC C (fun text => (ServiceConnection R ⟨text, false⟩ s).1) strMethod params =
        .error (chars "incorrect rpcuser or rpcpassword (authorization failed)") ∧
      (ServiceConnection R ⟨callText C strMethod params, false⟩ s).2 = (s, false)) := by
  have hread := readRequest_JSONRPCRequest hplatform strMethod params
  rw [CallRPC_eq hset, hplatform, callText]
  constructor
  · intro hpassword
    rw [ServiceConnection_call hR hrequest hread hpassword s, answer_requestObj]
    exact ⟨readResponse_answerText hzero htime (answered_outcomeStatus _) (replyObj_ne_nil _ _)
      hreply false, rfl⟩
  · intro hpassword
    rw [ServiceConnection_unauthorized hrequest hpassword s]
    exact ⟨readResponse_unauthorized _ _, rfl⟩

end Call

/-! ## A server that counts -/

/-- A server with one command, which counts its calls and gives back its parameters. -/
def counting : RPCServer Nat Int where
  platform := hundredMillionths
  vRPCCommands := [⟨chars "echo", fun params n => (.ok (.array params), n + 1), true⟩]
  GetWarnings _ := []
  disablesafemode := false
  strRPCUserColonPass := chars "user:pass"
  rfc1123Time := chars "Thu, 01 Jan 1970 00:00:00 +0000"

theorem throwsCodes_counting : counting.ThrowsCodes := by
  intro pcmd hmem params s objError s' h
  obtain rfl := List.mem_singleton.1 hmem
  cases h

theorem CallRPC_ServiceConnection_counting :
    CallRPC ⟨hundredMillionths, chars "user", chars "pass", []⟩
        (fun text => (ServiceConnection counting ⟨text, false⟩ 3).1) (chars "echo")
        [.real 150000000] =
      .ok [(chars "result", .array [.real 150000000]), (chars "error", .null),
        (chars "id", .int 1 false)] ∧
    (ServiceConnection counting ⟨callText ⟨hundredMillionths, chars "user", chars "pass", []⟩
      (chars "echo") [.real 150000000], false⟩ 3).2 = (4, false) :=
  (CallRPC_ServiceConnection (C := ⟨hundredMillionths, chars "user", chars "pass", []⟩)
    (R := counting) rfl throwsCodes_counting (by decide) (by decide +kernel) (by decide)
    (chars "echo") [.real 150000000] 3 (by decide +kernel)
    (show (_ : Nat) < _ by decide +kernel)).1 rfl

def countingBody : List UInt8 :=
  JSONRPCRequest hundredMillionths (chars "echo") [.int 7 false] (.int 1 false)

/-- A request of the counting server, on a connection that is kept. -/
def countingPost : Post counting where
  headers := [(chars "Content-Length", printed 10 countingBody.length),
    (chars "Authorization", chars "Basic " ++ EncodeBase64 (chars "user:pass"))]
  body := countingBody
  req := .obj (requestObj (chars "echo") [.int 7 false] (.int 1 false))
  framed := by
    refine ⟨?_, by decide +kernel, List.mem_cons_self, by decide +kernel⟩
    intro item hitem
    simp only [List.mem_cons, List.not_mem_nil, or_false] at hitem
    rcases hitem with rfl | rfl <;> decide +kernel
  authorized := List.mem_cons_of_mem _ List.mem_cons_self
  reads := readRequest_JSONRPCRequest (C := ⟨hundredMillionths, [], [], []⟩) rfl _ _

/-- The answer to it. -/
def countingReply : Value Int :=
  .obj [(chars "result", .array [.int 7 false]), (chars "error", .null), (chars "id", .int 1 false)]

theorem ServiceConnection_answers_counting :
    ∃ out, ServiceConnection counting
        ⟨[countingPost, countingPost].flatMap fun post => httpRequest post.headers post.body, false⟩
          3 = (out, 5, false) ∧
      counting.readReplies 2 ⟨out, false⟩ =
        [(HTTP_OK, some countingReply), (HTTP_OK, some countingReply)] := by
  have hkeep : countingPost.keep = true := by decide +kernel
  have hanswers : counting.answers
      ([countingPost, countingPost].map fun post => (post.req, post.keep)) 3 =
        ([((HTTP_OK, countingReply), true), ((HTTP_OK, countingReply), true)], 5) := by
    simp only [List.map_cons, List.map_nil, hkeep]
    rfl
  have hshort : ∀ a ∈ (counting.answers
      ([countingPost, countingPost].map fun post => (post.req, post.keep)) 3).1,
        counting.Short a.1.2 := by
    have hreply : counting.Short countingReply := show (_ : Nat) < _ by decide +kernel
    rw [hanswers]
    exact List.forall_mem_cons.2 ⟨hreply, List.forall_mem_singleton.2 hreply⟩
  have h := ServiceConnection_answers throwsCodes_counting (by decide) (by decide +kernel)
    [countingPost, countingPost] 3 hshort
  rw [hanswers] at h
  exact h

end RPCServer

end TriTip
