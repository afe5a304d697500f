import LunaCore.Engine.Invocation
import LunaCore.Flow.NodeConfig
import Mathlib.Tactic.Ring

/-! The client of the MCP server: one JSON-RPC envelope over HTTP, and what is made of its answer.

    POST ── not listening ──▶ wait, POST again, the wait twice as long
      └──── taken ──▶ response, or a failure that is not tried again

    Only a POST that never reached the server is repeated. -/

namespace LunaCore.Mcp.Client
open LunaCore.Values
open LunaCore.Flow (given)
open LunaCore.Engine (Codec ToolOutcome)

/-- What becomes of one POST. -/
inductive Delivery where
  /-- `ConnectError` or `ConnectTimeout`. -/
  | refused (text : String)
  /-- Another transport error; the server had taken the envelope or not. -/
  | broken (text : String) (taken : Bool)
  /-- The server took it and answered, with a body that is JSON or none. -/
  | answered (status : ℕ) (body : Option Json)

structure MCPClient where
  connectAttempts : ℕ
  connectBackoff : ℚ
  attempts_pos : 0 < connectAttempts

/-- `__init__`: the settings stand in for what is not given, and there is one attempt at least. -/
def MCPClient.new (settingsAttempts : ℤ) (settingsBackoff : ℚ) (connectAttempts : Option ℤ)
    (connectBackoff : Option ℚ) : MCPClient where
  connectAttempts := (max 1 (connectAttempts.getD settingsAttempts)).toNat
  connectBackoff := connectBackoff.getD settingsBackoff
  attempts_pos := by
    have := le_max_left 1 (connectAttempts.getD settingsAttempts)
    omega

/-- The response, or an `httpx.HTTPError`. -/
inductive Posted where
  | response (status : ℕ) (body : Option Json)
  | httpError (text : String)

/-- An envelope's way to the server. `taken` is for proofs only: how often the server took it. -/
structure Exchange where
  posted : Posted
  posts : ℕ
  slept : List ℚ
  taken : ℕ

/-- The exchange of one POST that is not repeated. -/
def Delivery.exchange : Delivery → Exchange
  | .refused text => ⟨.httpError text, 1, [], 0⟩
  | .broken text taken => ⟨.httpError text, 1, [], if taken then 1 else 0⟩
  | .answered status body => ⟨.response status body, 1, [], 1⟩

/-- The loop of `_post_with_connect_retry`, with so many attempts after this one. -/
def attempts (net : ℕ → Delivery) : ℕ → ℚ → ℕ → Exchange
  | 0, _, attempt => (net attempt).exchange
  | more + 1, delay, attempt => match net attempt with
    | .refused _ =>
      let rest := attempts net more (delay * 2) (attempt + 1)
      { rest with posts := rest.posts + 1, slept := delay :: rest.slept }
    | delivery => delivery.exchange

/-- `_post_with_connect_retry`. -/
def MCPClient.postWithConnectRetry (client : MCPClient) (net : ℕ → Delivery) : Exchange :=
  attempts net (client.connectAttempts - 1) client.connectBackoff 1

inductive ClientError where
  /-- `MCPTransportError`. -/
  | transport (text : String)
  /-- `MCPRemoteError`. -/
  | remote (text : String)
  /-- What a body of another shape raises. -/
  | malformed (text : String)
  deriving DecidableEq

def ClientError.text : ClientError → String
  | .transport text | .remote text | .malformed text => text

variable (codec : Codec) (statusText : ℕ → String)

/-- `_rpc`, from the exchange on. -/
def rpc (method : String) : Posted → Except ClientError Json
  | .httpError text => .error (.transport ("MCP transport failed: " ++ text))
  | .response status body =>
    if ¬ (200 ≤ status ∧ status < 300) then
      .error (.transport ("MCP transport failed: " ++ statusText status))
    else match body with
      | some (.obj fields) =>
        if given fields "error" then match (Dict.get fields "error").getD .null with
          | .obj error => .error (.remote ("MCP " ++ method ++ " failed: " ++
              ((Dict.get error "message").map codec.str).getD "unknown error"))
          | _ => .error (.malformed "AttributeError")
        else .ok ((Dict.get fields "result").getD (.obj []))
      | some _ => .error (.malformed "AttributeError")
      | none => .error (.malformed "JSONDecodeError")

/-- What Python's `for` goes through. -/
def elements : Json → Except ClientError (List Json)
  | .arr values => .ok values
  | .str text => .ok (text.toList.map fun c => Json.str (String.singleton c))
  | .obj fields => .ok (fields.map fun field => Json.str field.1)
  | .null | .bool _ | .num _ => .error (.malformed "TypeError")

/-- The texts of the text blocks, and the other blocks. -/
def partitionBlocks : List Json → Except ClientError (List Json × List Json)
  | [] => .ok ([], [])
  | .obj block :: rest => (partitionBlocks rest).map fun parts =>
      if Dict.get block "type" = some (.str "text") then
        ((Dict.get block "text").getD (.str "") :: parts.1, parts.2)
      else (parts.1, .obj block :: parts.2)
  | _ :: _ => .error (.malformed "AttributeError")

/-- Python's `"\n".join`. -/
def joined (texts : List Json) : Except ClientError String :=
  (texts.mapM fun text : Json => match text with
    | .str text => Except.ok text
    | _ => Except.error (ClientError.malformed "TypeError")).map fun lines =>
    "\n".intercalate lines

/-- `_flatten_content_blocks`. -/
def flattenContentBlocks (blocks : Json) : Except ClientError Json :=
  match elements blocks >>= partitionBlocks with
  | .error e => .error e
  | .ok ([], [block]) => .ok block
  | .ok ([], block :: blocks) => .ok (.arr (block :: blocks))
  | .ok (texts, []) => (joined texts).map Json.str
  | .ok (texts, structured) => (joined texts).map fun text =>
      Json.obj [("text", .str text), ("structured", .arr structured)]

structure ToolCallResult where
  name : String
  output : Json
  isError : Bool
  errorMessage : Option String

/-- `call_tool`, from the exchange on. -/
def toolCallResult (name : String) (posted : Posted) : Except ClientError ToolCallResult :=
  match rpc codec statusText "tools/call" posted with
  | .error (.remote text) => .ok ⟨name, .null, true, some text⟩
  | .error e => .error e
  | .ok (.obj result) =>
    let output := match (Dict.get result "structuredContent").getD .null with
      | .null => flattenContentBlocks ((Dict.get result "content").getD (.arr []))
      | structured => .ok structured
    output.map fun output => ⟨name, output, given result "isError",
      if given result "isError" then some (codec.str output) else none⟩
  | .ok _ => .error (.malformed "AttributeError")

/-- `call_tool`. -/
def MCPClient.callTool (client : MCPClient) (name : String) (net : ℕ → Delivery) :
    Except ClientError ToolCallResult :=
  toolCallResult codec statusText name (client.postWithConnectRetry net).posted

/-- What the agent runner makes of a call's result. -/
def outcomeOf : Except ClientError ToolCallResult → ToolOutcome
  | .error e => .raised e.text
  | .ok result => match if result.isError then (result.errorMessage.map Json.str).getD .null
      else result.output with
    | .str text => .result text result.isError
    | payload => .result (codec.dumps payload) result.isError

/-! ### What reaches the server -/

/-- No server was there to take the POST. -/
def Delivery.Unreached (d : Delivery) : Prop := ∃ text, d = .refused text

/-- The server took the POST and answered what a client can go on with: a success, and a JSON
    object. -/
def Delivery.Replied (d : Delivery) : Prop :=
  ∃ status fields, d = .answered status (some (.obj fields)) ∧ 200 ≤ status ∧ status < 300

/-- SPEC: what a client may do with an envelope, from some attempt on. It POSTs it again only while
    no server was reached, after waits that are each twice the last; the last POST is what the
    server takes, once at most. -/
structure Exchange.Once (e : Exchange) (net : ℕ → Delivery) (attempt : ℕ) (delay : ℚ)
    (most : ℕ) : Prop where
  posts_pos : 0 < e.posts
  posts_le : e.posts ≤ most
  repeated : ∀ k, k + 1 < e.posts → (net (attempt + k)).Unreached
  last : e.posted = (net (attempt + e.posts - 1)).exchange.posted
  taken : e.taken = (net (attempt + e.posts - 1)).exchange.taken
  taken_le : e.taken ≤ 1
  waits : e.slept = (List.range (e.posts - 1)).map fun k => delay * 2 ^ k

theorem exchange_taken_le (delivery : Delivery) : delivery.exchange.taken ≤ 1 := by
  cases delivery with
  | refused text => exact Nat.zero_le 1
  | answered status body => exact le_rfl
  | broken text taken =>
    cases taken
    · exact Nat.zero_le 1
    · exact le_rfl

/-- An envelope that is POSTed once. -/
theorem exchange_once (net : ℕ → Delivery) (attempt : ℕ) (delay : ℚ) (more : ℕ) :
    (net attempt).exchange.Once net attempt delay (more + 1) := by
  have hposts : (net attempt).exchange.posts = 1 := by cases net attempt <;> rfl
  refine ⟨?_, ?_, fun k hk => ?_, ?_, ?_, exchange_taken_le (net attempt), ?_⟩
  · rw [hposts]
    exact Nat.one_pos
  · rw [hposts]
    exact Nat.le_add_left 1 more
  · rw [hposts] at hk
    omega
  · rw [hposts, Nat.add_sub_cancel]
  · rw [hposts, Nat.add_sub_cancel]
  · cases net attempt <;> rfl

/-- STEP: an envelope that no server took is POSTed again. -/
theorem Exchange.Once.again {e : Exchange} {net : ℕ → Delivery} {attempt : ℕ} {delay : ℚ}
    {most : ℕ} (hrest : e.Once net (attempt + 1) (delay * 2) most)
    (hnet : (net attempt).Unreached) :
    Exchange.Once { e with posts := e.posts + 1, slept := delay :: e.slept } net attempt delay
      (most + 1) := by
  have hsame : attempt + (e.posts + 1) - 1 = attempt + 1 + e.posts - 1 := by omega
  refine ⟨Nat.succ_pos _, Nat.succ_le_succ hrest.posts_le, fun k hk => ?_, ?_, ?_,
    hrest.taken_le, ?_⟩
  · cases k with
    | zero => exact hnet
    | succ k =>
      have hagain := hrest.repeated k (Nat.lt_of_succ_lt_succ hk)
      rwa [Nat.add_assoc, Nat.add_comm 1 k] at hagain
  · exact hrest.last.trans (by rw [hsame])
  · exact hrest.taken.trans (by rw [hsame])
  · -- the first wait is `delay`, and the others are those of the rest, which begin at twice it
    obtain ⟨posts, hposts⟩ := Nat.exists_eq_succ_of_ne_zero hrest.posts_pos.ne'
    have hwaits := hrest.waits
    rw [hposts] at hwaits
    simp only [hwaits, hposts, Nat.succ_eq_add_one, Nat.add_sub_cancel, List.range_succ_eq_map,
      List.map_cons, List.map_map, pow_zero, mul_one, List.cons.injEq, true_and]
    refine List.map_congr_left fun k _ => ?_
    rw [Function.comp_apply, pow_succ]
    ring

/-- INVARIANT: of an envelope's POSTs the server takes the last at most; by induction on the
    attempts that are left. -/
theorem attempts_once (net : ℕ → Delivery) (more : ℕ) (delay : ℚ) (attempt : ℕ) :
    (attempts net more delay attempt).Once net attempt delay (more + 1) := by
  induction more generalizing delay attempt with
  | zero => exact exchange_once net attempt delay 0
  | succ more ih =>
    have honce := exchange_once net attempt delay (more + 1)
    rw [attempts]
    cases hnet : net attempt with
    | refused text => exact (ih (delay * 2) (attempt + 1)).again ⟨text, hnet⟩
    | _ => rwa [hnet] at honce

theorem postWithConnectRetry_once (client : MCPClient) (net : ℕ → Delivery) :
    (client.postWithConnectRetry net).Once net 1 client.connectBackoff client.connectAttempts := by
  have h := attempts_once net (client.connectAttempts - 1) client.connectBackoff 1
  rwa [Nat.sub_add_cancel client.attempts_pos] at h

/-- What `_rpc` does not raise for. -/
theorem toolCallResult_ok {name : String} {posted : Posted} {result : ToolCallResult}
    (h : toolCallResult codec statusText name posted = .ok result) :
    ∃ status fields, posted = .response status (some (.obj fields)) ∧
      200 ≤ status ∧ status < 300 := by
  cases posted with
  | httpError text => cases h
  | response status body =>
    by_cases hstatus : 200 ≤ status ∧ status < 300
    case neg =>
      simp only [toolCallResult, rpc, if_pos hstatus] at h
      cases h
    simp only [toolCallResult, rpc, if_neg (not_not.mpr hstatus)] at h
    cases body with
    | none => cases h
    | some body =>
      cases body with
      | obj fields => exact ⟨status, fields, rfl, hstatus⟩
      | _ => cases h

/-- There is a result only where the server answered the last POST, which it then took. -/
theorem callTool_ok {client : MCPClient} {name : String} {net : ℕ → Delivery}
    {result : ToolCallResult} (h : client.callTool codec statusText name net = .ok result) :
    (client.postWithConnectRetry net).taken = 1 ∧
      (net (client.postWithConnectRetry net).posts).Replied := by
  have honce := postWithConnectRetry_once client net
  have hlast := honce.last
  have htaken := honce.taken
  rw [Nat.add_sub_cancel_left] at hlast htaken
  obtain ⟨status, fields, hposted, hstatus⟩ := toolCallResult_ok codec statusText h
  rw [hposted] at hlast
  cases hnet : net (client.postWithConnectRetry net).posts with
  | answered status' body =>
    rw [hnet] at hlast htaken
    cases hlast
    exact ⟨htaken, status, fields, rfl, hstatus⟩
  | refused text => rw [hnet] at hlast; cases hlast
  | broken text taken => rw [hnet] at hlast; cases hlast

theorem outcomeOf_result {called : Except ClientError ToolCallResult} {content : String}
    {isError : Bool} (h : outcomeOf codec called = .result content isError) :
    ∃ result, called = .ok result := by
  cases called with
  | ok result => exact ⟨result, rfl⟩
  | error e => cases h

end LunaCore.Mcp.Client
