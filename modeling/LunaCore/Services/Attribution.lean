import LunaCore.Schemes.Scoped
import LunaCore.Services.Purposes

/-! Whose account a call is put on, while requests of several users are served side by side.

        request of u ── usage_context(u, chat) ─┬─ routing ── agent ── call           u  chat
                                                ├─ usage_context(embedding) ── call   u  chat.embedding
                                                └─ spawn ─▶ titling ── call           u  chat.title
        request of v ── usage_context(v, voice) ── call                               v  voice

    No call says who it is for. The row takes that from a context variable, which a task left behind
    by a request has a copy of, long after the request was answered. -/

namespace LunaCore.Services
open LunaCore.Schemes

/-- A model call, with what its row needs besides the attribution. -/
structure MeteredCall where
  scopeId : ℕ
  userId : Option ℕ
  createdAt : ℕ
  usage : LLMUsage

/-- `_attributed`, under the attribution in force. -/
def MeteredCall.row (call : MeteredCall) (who : UsageAttribution) : LedgerRow where
  scopeId := call.scopeId
  userId := call.userId.or who.userId
  purpose := who.purpose
  agentName := who.agentName
  createdAt := call.createdAt
  usage := call.usage

/-- A request of a user, served inside a `usage_context` of its own. -/
structure ServedRequest where
  user : ℕ
  purpose : PurposeName
  scopeId : ℕ
  body : Prog Block MeteredCall

def ServedRequest.run (q : ServedRequest) : Prog Block MeteredCall :=
  .block ⟨some q.user, some q.purpose, none, some q.scopeId⟩ q.body .done

/-- No attribution, as the variable begins. -/
def unattributed : UsageAttribution := ⟨none, none, none, none⟩

/-- Each request is a task of its own. -/
def serve (requests : List ServedRequest) : Prog Block MeteredCall :=
  requests.foldr (fun q next => .spawn q.run next) .done

/-- What was recorded: the rows that fit their columns. -/
def ledgerOf (notes : List (MeteredCall × UsageAttribution)) : List LedgerRow :=
  (notes.map fun note => note.1.row note.2).filter LedgerRow.fits

/-- The rows of a request's calls, as the text of the code has them. -/
def ServedRequest.rows (q : ServedRequest) : Multiset LedgerRow :=
  (q.run.lexical Block.inside unattributed).map fun note => note.1.row note.2

/-- Neither a block nor a call of the request names another user. -/
def ServedRequest.OwnUser (q : ServedRequest) : Prop :=
  q.body.Blocks (fun block => ∀ user ∈ block.userId, user = q.user) ∧
    ∀ call ∈ q.body.events, ∀ user ∈ call.userId, user = q.user

/-- The account of the request. -/
def ServedRequest.Charged (q : ServedRequest) (userId : Option ℕ) (purpose : Option String) : Prop :=
  userId = some q.user ∧ ∃ path, purpose = some path ∧ path ≠ "" ∧ Under q.purpose path

/-- Inside the request its user stays in force, and the path goes on from its purpose. -/
theorem charged_inside {q : ServedRequest} {block : Block} {who : UsageAttribution}
    (hblock : ∀ user ∈ block.userId, user = q.user) (hwho : q.Charged who.userId who.purpose) :
    q.Charged (block.inside who).userId (block.inside who).purpose := by
  obtain ⟨huser, path, hpath, hne, hunder⟩ := hwho
  constructor
  · cases hgiven : block.userId with
    | none => simp [Block.inside, hgiven, huser]
    | some user => simp [Block.inside, hgiven, hblock user hgiven]
  · rw [Block.inside, hpath]
    exact nest_under hne hunder block.purpose

theorem charged_start (q : ServedRequest) :
    q.Charged (Block.inside ⟨some q.user, some q.purpose, none, some q.scopeId⟩ unattributed).userId
      (Block.inside ⟨some q.user, some q.purpose, none, some q.scopeId⟩ unattributed).purpose := by
  refine ⟨rfl, q.purpose.1, ?_, q.purpose.2, .inl rfl⟩
  change nest none (some q.purpose.1) = some q.purpose.1
  rw [nest_none]
  exact if_neg q.purpose.2

/-- Every call of a request is put on the request's account. -/
theorem charged_rows {q : ServedRequest} (h : q.OwnUser) :
    ∀ row ∈ q.rows, q.Charged row.userId row.purpose := by
  intro row hrow
  obtain ⟨⟨call, who⟩, hnote, rfl⟩ := Multiset.mem_map.mp hrow
  have hbody : (call, who) ∈ q.body.lexical Block.inside
      (Block.inside ⟨some q.user, some q.purpose, none, some q.scopeId⟩ unattributed) := by
    simpa [ServedRequest.run, Prog.lexical] using hnote
  obtain ⟨huser, hpath⟩ := lexical_values (fun who => q.Charged who.userId who.purpose)
    (fun _ _ hblock hwho => charged_inside hblock hwho) h.1 (charged_start q) _ hbody
  refine ⟨?_, hpath⟩
  cases hexplicit : call.userId with
  | none => simpa [MeteredCall.row, hexplicit] using huser
  | some user =>
    have hcall : call ∈ q.body.events := by
      rw [← map_fst_lexical Block.inside
        (Block.inside ⟨some q.user, some q.purpose, none, some q.scopeId⟩ unattributed)]
      exact Multiset.mem_map_of_mem Prod.fst hbody
    simp [MeteredCall.row, hexplicit, h.2 call hcall user hexplicit]

theorem rows_serve (requests : List ServedRequest) :
    ((serve requests).lexical Block.inside unattributed).map (fun note => note.1.row note.2) =
      (requests.map ServedRequest.rows).sum := by
  induction requests with
  | nil => rfl
  | cons q requests ih =>
    rw [List.map_cons, List.sum_cons, ← ih]
    exact Multiset.map_add _ _ _

theorem ledger_le {requests : List ServedRequest} {as : List TaskAction}
    {t : Tasks Block MeteredCall UsageAttribution}
    (h : runFrom (tasksStep Block.inside) (Tasks.start unattributed (serve requests)) as = some t) :
    (ledgerOf t.notes : Multiset LedgerRow) ≤ (requests.map ServedRequest.rows).sum := by
  have hnotes : (t.notes.map (fun note => note.1.row note.2) : Multiset LedgerRow) ≤
      (requests.map ServedRequest.rows).sum := by
    rw [← rows_serve, ← Multiset.map_coe]
    exact Multiset.map_le_map (notes_le h)
  exact (List.filter_sublist.subperm : _ ≤ _).trans hnotes

/-- Of the rows of all requests, a user's are those of the user's own requests. -/
theorem filter_user_rows {requests : List ServedRequest} (h : ∀ q ∈ requests, q.OwnUser)
    (user : ℕ) : (requests.map ServedRequest.rows).sum.filter (fun row => row.userId = some user) =
      ((requests.filter fun q => q.user = user).map ServedRequest.rows).sum := by
  induction requests with
  | nil => rfl
  | cons q requests ih =>
    have hrest := ih fun other hother => h other (List.mem_cons_of_mem _ hother)
    have hcharged := charged_rows (h q List.mem_cons_self)
    rw [List.map_cons, List.sum_cons, Multiset.filter_add, hrest]
    by_cases huser : q.user = user
    · have hall : q.rows.filter (fun row => row.userId = some user) = q.rows :=
        Multiset.filter_eq_self.mpr fun row hrow => huser ▸ (hcharged row hrow).1
      rw [hall, List.filter_cons_of_pos (by simpa using huser), List.map_cons, List.sum_cons]
    · have hnone : q.rows.filter (fun row => row.userId = some user) = 0 :=
        Multiset.filter_eq_nil.mpr fun row hrow heq =>
          huser (Option.some.inj ((hcharged row hrow).1.symm.trans heq))
      rw [hnone, zero_add, List.filter_cons_of_neg (by simpa using huser)]

/-- SAFETY: however the requests of all users and the tasks they leave behind interleave, and
    wherever they fail, a row charged to a user is a call of one of that user's own requests, as
    often as it stands there, and every row is on the account and under the purpose of its
    request. -/
theorem attribution_run {requests : List ServedRequest} {as : List TaskAction}
    {t : Tasks Block MeteredCall UsageAttribution} (hown : ∀ q ∈ requests, q.OwnUser)
    (h : runFrom (tasksStep Block.inside) (Tasks.start unattributed (serve requests)) as = some t) :
    (∀ user, ((ledgerOf t.notes).filter (fun row => row.userId = some user) : Multiset LedgerRow) ≤
      ((requests.filter fun q => q.user = user).map ServedRequest.rows).sum) ∧
    ∀ row ∈ ledgerOf t.notes, ∃ q ∈ requests, row ∈ q.rows ∧ q.Charged row.userId row.purpose := by
  constructor
  · intro user
    rw [← filter_user_rows hown, ← Multiset.filter_coe]
    exact Multiset.filter_le_filter _ (ledger_le h)
  · intro row hrow
    have hsum := Multiset.mem_of_le (ledger_le h) (Multiset.mem_coe.mpr hrow)
    obtain ⟨q, hq, hmem⟩ := mem_sum_map.mp hsum
    exact ⟨q, hq, hmem, charged_rows (hown q hq) row hmem⟩

def smallUsage : LLMUsage := ⟨"m", 10, 1, none, none, none, 11⟩

/-- A chat turn that leaves a titling task behind. -/
def chatTurn (user : ℕ) : ServedRequest :=
  ⟨user, ⟨"chat", by decide⟩, 7,
    .spawn (.block ⟨some user, some "title", none, none⟩ (.note ⟨7, none, 2, smallUsage⟩ .done) .done)
      (.note ⟨7, none, 1, smallUsage⟩ .done)⟩

/-- The title of the first turn is written while the second turn is at work. -/
def titledLater : List TaskAction :=
  [.advance 0, .advance 0, .advance 1, .advance 1, .advance 1, .advance 1, .advance 2, .advance 2,
    .advance 3, .advance 3, .advance 2]

theorem attribution_run_titledLater : ∃ t, runFrom (tasksStep Block.inside)
    (Tasks.start unattributed (serve [chatTurn 1, chatTurn 2])) titledLater = some t ∧
    (ledgerOf t.notes).map (fun row => (row.userId, row.purpose)) =
      [(some 1, some "chat"), (some 1, some "chat.title"), (some 2, some "chat")] ∧
    ∀ user, ((ledgerOf t.notes).filter (fun row => row.userId = some user) : Multiset LedgerRow) ≤
      (([chatTurn 1, chatTurn 2].filter fun q => q.user = user).map ServedRequest.rows).sum :=
  ⟨_, rfl, by decide +kernel, (@attribution_run _ titledLater _
    (by simp [chatTurn, ServedRequest.OwnUser, Prog.Blocks, Prog.events]) rfl).1⟩

end LunaCore.Services
