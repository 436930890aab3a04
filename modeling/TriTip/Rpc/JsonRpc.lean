import TriTip.Json.RoundTrip

/-!
# JSON-RPC

Requests and replies of `bitcoinrpc.cpp` as JSON values, the table of commands and how a request or
a batch of them is executed. A command is a parameter: it reads and writes the state of the node,
and returns a value or throws, an error object or an exception with a text.
-/

namespace TriTip

variable {ρ σ : Type}

abbrev Object (ρ : Type) := List (List UInt8 × Value ρ)

def RPC_INVALID_REQUEST : Int := -32600

def RPC_METHOD_NOT_FOUND : Int := -32601

def RPC_PARSE_ERROR : Int := -32700

def RPC_MISC_ERROR : Int := -1

def RPC_FORBIDDEN_BY_SAFE_MODE : Int := -2

/-- The first value of a name, null if there is none. -/
def find_value (obj : Object ρ) (name : List UInt8) : Value ρ := (obj.lookup name).getD .null

def JSONRPCError (code : Int) (message : List UInt8) : Object ρ :=
  [(chars "code", .int (.ofInt code) false), (chars "message", .str message)]

/-- What is thrown, an `Object` or a `std::exception`. -/
inductive Thrown (ρ : Type)
  | object (objError : Object ρ)
  | exception (what : List UInt8)

structure CRPCCommand (σ ρ : Type) where
  name : List UInt8
  actor : List (Value ρ) → σ → Except (Thrown ρ) (Value ρ) × σ
  okSafeMode : Bool

/-- What the server is made of. -/
structure RPCServer (σ ρ : Type) where
  platform : Platform ρ
  vRPCCommands : List (CRPCCommand σ ρ)
  /-- `GetWarnings("rpc")` -/
  GetWarnings : σ → List UInt8
  /-- `-disablesafemode` -/
  disablesafemode : Bool
  strRPCUserColonPass : List UInt8
  rfc1123Time : List UInt8

/-! ## Requests and replies -/

def requestObj (strMethod : List UInt8) (params : List (Value ρ)) (id : Value ρ) : Object ρ :=
  [(chars "method", .str strMethod), (chars "params", .array params), (chars "id", id)]

def JSONRPCRequest (P : Platform ρ) (strMethod : List UInt8) (params : List (Value ρ))
    (id : Value ρ) : List UInt8 :=
  write_string P false (.obj (requestObj strMethod params id)) ++ [newline]

def JSONRPCReplyObj (result error id : Value ρ) : Object ρ :=
  [(chars "result", if error.type ≠ .null_type then .null else result), (chars "error", error),
    (chars "id", id)]

def JSONRPCReply (P : Platform ρ) (result error id : Value ρ) : List UInt8 :=
  write_string P false (.obj (JSONRPCReplyObj result error id)) ++ [newline]

def invalidRequest (message : String) : Thrown ρ :=
  .object (JSONRPCError RPC_INVALID_REQUEST (chars message))

def parseError (message : String) : Thrown ρ :=
  .object (JSONRPCError RPC_PARSE_ERROR (chars message))

def JSONRequest.parseParams (strMethod : List UInt8) :
    Value ρ → Except (Thrown ρ) (List UInt8 × List (Value ρ))
  | .array params => .ok (strMethod, params)
  | .null => .ok (strMethod, [])
  | _ => .error (invalidRequest "Params must be an array")

/-- The id, and the method with its parameters if there is nothing wrong with them. -/
def JSONRequest.parse : Value ρ → Value ρ × Except (Thrown ρ) (List UInt8 × List (Value ρ))
  | .obj request =>
    -- the id comes first, so that errors from here on have it
    (find_value request (chars "id"),
      match find_value request (chars "method") with
      | .null => .error (invalidRequest "Missing method")
      | .str strMethod => JSONRequest.parseParams strMethod (find_value request (chars "params"))
      | _ => .error (invalidRequest "Method must be a string"))
  | _ => (.null, .error (invalidRequest "Invalid Request object"))

/-! ## Execution -/

namespace RPCServer

variable (R : RPCServer σ ρ)

/-- The command of a name; the last one that was entered into the map. -/
def tableRPC (name : List UInt8) : Option (CRPCCommand σ ρ) :=
  R.vRPCCommands.reverse.find? fun pcmd => pcmd.name = name

def execute (strMethod : List UInt8) (params : List (Value ρ)) (s : σ) :
    Except (Thrown ρ) (Value ρ) × σ :=
  match R.tableRPC strMethod with
  | none => (.error (.object (JSONRPCError RPC_METHOD_NOT_FOUND (chars "Method not found"))), s)
  | some pcmd =>
    -- Observe safe mode
    if R.GetWarnings s ≠ [] ∧ R.disablesafemode = false ∧ pcmd.okSafeMode = false then
      (.error (.object
        (JSONRPCError RPC_FORBIDDEN_BY_SAFE_MODE (chars "Safe mode: " ++ R.GetWarnings s))), s)
    else
      match pcmd.actor params s with
      | (.error (.exception what), s') => (.error (.object (JSONRPCError RPC_MISC_ERROR what)), s')
      | r => r

/-- A request that was parsed, executed. -/
def executeParsed (parsed : Except (Thrown ρ) (List UInt8 × List (Value ρ))) (s : σ) :
    Except (Thrown ρ) (Value ρ) × σ :=
  match parsed with
  | .ok (strMethod, params) => R.execute strMethod params s
  | .error e => (.error e, s)

/-- The error object for what was thrown. -/
def caught : Thrown ρ → Object ρ
  | .object objError => objError
  | .exception what => JSONRPCError RPC_PARSE_ERROR what

/-- The reply to what was executed. -/
def replyObj (id : Value ρ) : Except (Thrown ρ) (Value ρ) → Object ρ
  | .ok result => JSONRPCReplyObj result .null id
  | .error e => JSONRPCReplyObj .null (.obj (caught e)) id

def JSONRPCExecOne (req : Value ρ) (s : σ) : Object ρ × σ :=
  let (id, parsed) := JSONRequest.parse req
  let (outcome, s') := R.executeParsed parsed s
  (replyObj id outcome, s')

/-- The replies to a batch, in its order. -/
def execBatch : List (Value ρ) → σ → List (Value ρ) × σ
  | [], s => ([], s)
  | req :: vReq, s =>
    let (reply, s') := R.JSONRPCExecOne req s
    let (ret, s'') := execBatch vReq s'
    (.obj reply :: ret, s'')

def JSONRPCExecBatch (vReq : List (Value ρ)) (s : σ) : List UInt8 × σ :=
  let (ret, s') := R.execBatch vReq s
  (write_string R.platform false (.array ret) ++ [newline], s')

/-- `read_string` into a new variable; it always comes back. -/
def readRequest (strRequest : List UInt8) : Option (Value ρ) :=
  match read_string R.platform strRequest .null with
  | some (true, valRequest) => some valRequest
  | _ => none

/-- The `try` block of `ServiceConnection`: the id that is known by then, and the reply or what is
thrown. -/
def handle (strRequest : List UInt8) (s : σ) : Value ρ × Except (Thrown ρ) (List UInt8) × σ :=
  match R.readRequest strRequest with
  | none => (.null, .error (parseError "Parse error"), s)
  | some (.array vReq) =>
    let (strReply, s') := R.JSONRPCExecBatch vReq s
    (.null, .ok strReply, s')
  | some (.obj request) =>
    let (id, parsed) := JSONRequest.parse (.obj request)
    let (outcome, s') := R.executeParsed parsed s
    (id, outcome.map fun result => JSONRPCReply R.platform result .null id, s')
  | some _ => (.null, .error (parseError "Top-level object parse error"), s)

end RPCServer

end TriTip
