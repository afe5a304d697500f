import LunaCore.Mcp.Builder

/-! ConnectorRegistry: the connectors and operations that can be executed.

    _connectors   connector id ─▶ its operations by id
    _operations   operation id ─▶ connector id

    An operation is found by way of both maps. Filling in a connector replaces what it had, so an id
    may be left in the second map that the first has no more; what the first has, the second knows. -/

namespace LunaCore.Connectors
open LunaCore.Schemes
open LunaCore.Mcp (Operation)

/-- The maps of a `ConnectorRegistry`; of a `RegisteredConnector` its operations. -/
structure ConnectorRegistry where
  connectors : Table ℕ (Table ℕ Operation)
  operations : Table ℕ ℕ

namespace ConnectorRegistry

def empty : ConnectorRegistry := ⟨∅, ∅⟩

/-- `get_operation`; nothing where it raises KeyError. -/
def getOperation (r : ConnectorRegistry) (operationId : ℕ) : Option Operation :=
  (r.operations.lookup operationId).bind fun connectorId =>
    (r.connectors.lookup connectorId).bind fun operations => operations.lookup operationId

/-- The operations of a connector, or the empty ones of a new entry. -/
def bucket (r : ConnectorRegistry) (connectorId : ℕ) : Table ℕ Operation :=
  (r.connectors.lookup connectorId).getD ∅

/-- An operation under its connector, in both maps. -/
def put (r : ConnectorRegistry) (connectorId : ℕ) (op : Operation) : ConnectorRegistry where
  connectors := r.connectors.insert connectorId ((r.bucket connectorId).insert op.id op)
  operations := r.operations.insert op.id connectorId

/-- `register`. -/
def register (r : ConnectorRegistry) (connectorId : ℕ) (operations : List Operation) :
    ConnectorRegistry :=
  operations.foldl (fun r op => r.put connectorId op)
    { r with connectors := r.connectors.insert connectorId (r.bucket connectorId) }

/-- `unregister_operation`. -/
def unregisterOperation (r : ConnectorRegistry) (operationId : ℕ) : ConnectorRegistry :=
  match r.operations.lookup operationId with
  | none => r
  | some connectorId =>
    { connectors := match r.connectors.lookup connectorId with
        | none => r.connectors
        | some operations => r.connectors.insert connectorId (operations.erase operationId)
      operations := r.operations.erase operationId }

/-- `unregister_connector`. -/
def unregisterConnector (r : ConnectorRegistry) (connectorId : ℕ) : ConnectorRegistry :=
  match r.connectors.lookup connectorId with
  | none => r
  | some operations =>
    { connectors := r.connectors.erase connectorId
      operations := operations.keys.foldl (fun t id => t.erase id) r.operations }

/-- `load_from_db` with the connectors it read. -/
def fillConnectors (r : ConnectorRegistry) (connectorIds : List ℕ) : ConnectorRegistry :=
  { r with connectors := connectorIds.foldl (fun t id => t.insert id ∅) r.connectors }

/-- One operation that `load_from_db` read: skipped where its connector is not there. -/
def fillOperation (r : ConnectorRegistry) (op : Operation) : ConnectorRegistry :=
  match r.connectors.lookup op.connectorId with
  | none => r
  | some _ => r.put op.connectorId op

def fillOperations (r : ConnectorRegistry) (operations : List Operation) : ConnectorRegistry :=
  operations.foldl fillOperation r

/-! ### What is in the first map -/

/-- The connector has the operation in the first map. -/
def Has (r : ConnectorRegistry) (connectorId operationId : ℕ) : Prop :=
  ∃ operations, r.connectors.lookup connectorId = some operations ∧ operationId ∈ operations

/-- What the first map has is the connector's own, and the second map knows it. -/
def Sound (owner : ℕ → Option ℕ) (r : ConnectorRegistry) : Prop :=
  ∀ c i, r.Has c i → owner i = some c ∧ r.operations.lookup i = some c

variable {r : ConnectorRegistry} {owner : ℕ → Option ℕ} {c i cid : ℕ} {op : Operation}

theorem not_has_empty : ¬ empty.Has c i := by
  rintro ⟨operations, h, _⟩
  cases h

theorem sound_empty : empty.Sound owner := fun _ _ h => absurd h not_has_empty

theorem has_insert (operations : Table ℕ Operation) (t : Table ℕ ℕ) :
    Has ⟨r.connectors.insert cid operations, t⟩ c i ↔
      if c = cid then i ∈ operations else r.Has c i := by
  unfold Has
  simp only [lookup_insert_ite]
  split
  · simp
  · rfl

/-- A connector that is not there has nothing. -/
theorem mem_bucket : i ∈ r.bucket cid ↔ r.Has cid i := by
  unfold bucket Has
  cases r.connectors.lookup cid <;> simp

theorem has_put : (r.put cid op).Has c i ↔ r.Has c i ∨ (c = cid ∧ i = op.id) := by
  rw [put, has_insert]
  split
  case isTrue h =>
    subst h
    rw [AList.mem_insert, mem_bucket, or_comm]
    simp
  case isFalse h => simp [h]

theorem Sound.put (h : r.Sound owner) (howner : owner op.id = some cid) :
    (r.put cid op).Sound owner := by
  intro c i hhas
  have hown : owner i = some c := by
    rcases has_put.mp hhas with hold | ⟨rfl, rfl⟩
    · exact (h c i hold).1
    · exact howner
  refine ⟨hown, ?_⟩
  rw [ConnectorRegistry.put, lookup_insert_ite]
  split
  case isTrue hid => rw [← howner, ← hid, hown]
  case isFalse hid =>
    rcases has_put.mp hhas with hold | ⟨-, hnew⟩
    · exact (h c i hold).2
    · exact absurd hnew hid

/-- An operation is found just when a connector has it. -/
theorem getOperation_isSome_iff (h : r.Sound owner) :
    (r.getOperation i).isSome = true ↔ ∃ c, r.Has c i := by
  unfold getOperation
  constructor
  · intro hsome
    obtain ⟨op, hop⟩ := Option.isSome_iff_exists.mp hsome
    obtain ⟨c, _, hop⟩ := Option.bind_eq_some_iff.mp hop
    obtain ⟨operations, hc, hop⟩ := Option.bind_eq_some_iff.mp hop
    exact ⟨c, operations, hc, AList.lookup_isSome.mp (Option.isSome_of_mem hop)⟩
  · rintro ⟨c, operations, hc, hmem⟩
    rw [(h c i ⟨operations, hc, hmem⟩).2, Option.bind_some, hc, Option.bind_some]
    exact AList.lookup_isSome.mpr hmem

theorem has_putAll (ops : List Operation) (r : ConnectorRegistry) :
    (ops.foldl (fun r op => r.put cid op) r).Has c i ↔
      r.Has c i ∨ (c = cid ∧ ∃ op ∈ ops, op.id = i) := by
  induction ops generalizing r with
  | nil => simp
  | cons op ops ih =>
    rw [List.foldl_cons, ih, has_put, or_assoc]
    refine or_congr_right ?_
    simp only [List.mem_cons, exists_eq_or_imp, eq_comm (a := i), and_or_left]

/-- Opening a connector adds nothing to it. -/
theorem has_open (t : Table ℕ ℕ) :
    Has ⟨r.connectors.insert cid (r.bucket cid), t⟩ c i ↔ r.Has c i := by
  rw [has_insert]
  split
  case isTrue h => rw [mem_bucket, h]
  case isFalse => rfl

theorem has_register (ops : List Operation) :
    (r.register cid ops).Has c i ↔ r.Has c i ∨ (c = cid ∧ ∃ op ∈ ops, op.id = i) := by
  rw [register, has_putAll, has_open]

theorem Sound.register {ops : List Operation} (h : r.Sound owner)
    (howner : ∀ op ∈ ops, owner op.id = some cid) : (r.register cid ops).Sound owner := by
  have hputs : ∀ (ops : List Operation) (r : ConnectorRegistry), r.Sound owner →
      (∀ op ∈ ops, owner op.id = some cid) →
      (ops.foldl (fun r op => r.put cid op) r).Sound owner := by
    intro ops
    induction ops with
    | nil => exact fun _ h _ => h
    | cons op ops ih =>
      intro r h howner
      obtain ⟨hop, hops⟩ := List.forall_mem_cons.mp howner
      exact ih _ (h.put hop) hops
  exact hputs ops _ (fun c i hhas => h c i ((has_open _).mp hhas)) howner

theorem has_unregisterOperation (h : r.Sound owner) (id : ℕ) :
    (r.unregisterOperation id).Has c i ↔ r.Has c i ∧ i ≠ id := by
  unfold unregisterOperation
  split
  case h_1 hnone =>
    refine ⟨fun hhas => ⟨hhas, ?_⟩, And.left⟩
    rintro rfl
    rw [(h c _ hhas).2] at hnone
    cases hnone
  case h_2 cid hcid =>
    have hother : ∀ c, r.Has c id → c = cid := fun c hhas =>
      Option.some.inj ((h c id hhas).2.symm.trans hcid)
    cases hbucket : r.connectors.lookup cid with
    | none =>
      refine ⟨fun hhas => ⟨hhas, ?_⟩, And.left⟩
      rintro rfl
      have hc := hother c hhas
      obtain ⟨operations, hlookup, _⟩ := hhas
      rw [hc, hbucket] at hlookup
      cases hlookup
    | some operations =>
      simp only
      rw [has_insert]
      split
      case isTrue hc =>
        have hin : r.Has c i ↔ i ∈ operations := by
          rw [← mem_bucket, bucket, hc, hbucket, Option.getD_some]
        rw [AList.mem_erase, hin, and_comm]
      case isFalse hc =>
        refine ⟨fun hhas => ⟨hhas, ?_⟩, And.left⟩
        rintro rfl
        exact hc (hother c hhas)

theorem Sound.unregisterOperation (h : r.Sound owner) (id : ℕ) :
    (r.unregisterOperation id).Sound owner := by
  intro c i hhas
  obtain ⟨hold, hne⟩ := (has_unregisterOperation h id).mp hhas
  refine ⟨(h c i hold).1, ?_⟩
  unfold ConnectorRegistry.unregisterOperation
  split
  · exact (h c i hold).2
  · rw [lookup_erase_ite, if_neg hne]
    exact (h c i hold).2

theorem has_unregisterConnector (cid : ℕ) :
    (r.unregisterConnector cid).Has c i ↔ r.Has c i ∧ c ≠ cid := by
  unfold unregisterConnector
  split
  case h_1 hnone =>
    refine ⟨fun hhas => ⟨hhas, ?_⟩, And.left⟩
    rintro rfl
    obtain ⟨operations, hlookup, _⟩ := hhas
    rw [hnone] at hlookup
    cases hlookup
  case h_2 =>
    unfold Has
    simp only [lookup_erase_ite]
    split
    case isTrue hc => simp [hc]
    case isFalse hc => simp [hc]

theorem Sound.unregisterConnector (h : r.Sound owner) (cid : ℕ) :
    (r.unregisterConnector cid).Sound owner := by
  intro c i hhas
  obtain ⟨hold, hne⟩ := (has_unregisterConnector cid).mp hhas
  refine ⟨(h c i hold).1, ?_⟩
  unfold ConnectorRegistry.unregisterConnector
  split
  · exact (h c i hold).2
  case h_2 operations hlookup =>
    rw [lookup_eraseAll, if_neg ?_]
    · exact (h c i hold).2
    · intro hmem
      have hthere := (h cid i ⟨operations, hlookup, AList.mem_keys.mpr hmem⟩).1
      exact hne (Option.some.inj ((h c i hold).1.symm.trans hthere))

/-! ### Loading -/

theorem lookup_fillConnectors (ids : List ℕ) (t : Table ℕ (Table ℕ Operation)) :
    (ids.foldl (fun t id => t.insert id ∅) t).lookup c =
      if c ∈ ids then some ∅ else t.lookup c := by
  induction ids generalizing t with
  | nil => simp
  | cons id ids ih =>
    rw [List.foldl_cons, ih, lookup_insert_ite]
    by_cases hid : c = id <;> by_cases hids : c ∈ ids <;> simp [hid, hids]

theorem has_fillConnectors (ids : List ℕ) :
    (r.fillConnectors ids).Has c i ↔ r.Has c i ∧ c ∉ ids := by
  unfold Has fillConnectors
  simp only [lookup_fillConnectors]
  by_cases hids : c ∈ ids
  · simp [hids]
  · simp [hids]

theorem Sound.fillConnectors (h : r.Sound owner) (ids : List ℕ) :
    (r.fillConnectors ids).Sound owner :=
  fun c i hhas => h c i ((has_fillConnectors ids).mp hhas).1

theorem mem_connectors_fillOperation :
    c ∈ (r.fillOperation op).connectors ↔ c ∈ r.connectors := by
  unfold fillOperation
  split
  · rfl
  case h_2 hlookup =>
    rw [put, AList.mem_insert, or_iff_right_iff_imp]
    rintro rfl
    exact AList.lookup_isSome.mp (Option.isSome_of_mem hlookup)

theorem has_fillOperation : (r.fillOperation op).Has c i ↔
    r.Has c i ∨ (c ∈ r.connectors ∧ op.connectorId = c ∧ op.id = i) := by
  unfold fillOperation
  split
  case h_1 hlookup =>
    refine ⟨.inl, ?_⟩
    rintro (hhas | ⟨hmem, rfl, _⟩)
    · exact hhas
    · exact absurd hmem (AList.lookup_eq_none.mp hlookup)
  case h_2 hlookup =>
    have hmem : op.connectorId ∈ r.connectors :=
      AList.lookup_isSome.mp (Option.isSome_of_mem hlookup)
    rw [has_put]
    refine or_congr_right ⟨?_, ?_⟩
    · rintro ⟨rfl, rfl⟩
      exact ⟨hmem, rfl, rfl⟩
    · rintro ⟨_, rfl, rfl⟩
      exact ⟨rfl, rfl⟩

/-- Loading gives the operations to the connectors that are there. -/
theorem has_fillOperations (ops : List Operation) (r : ConnectorRegistry) :
    (r.fillOperations ops).Has c i ↔ r.Has c i ∨
      (c ∈ r.connectors ∧ ∃ op ∈ ops, op.connectorId = c ∧ op.id = i) := by
  induction ops generalizing r with
  | nil => simp [fillOperations]
  | cons op ops ih =>
    rw [show r.fillOperations (op :: ops) = (r.fillOperation op).fillOperations ops from rfl, ih,
      has_fillOperation, mem_connectors_fillOperation, or_assoc, ← and_or_left]
    simp only [List.mem_cons, exists_eq_or_imp]

theorem Sound.fillOperations {ops : List Operation} (h : r.Sound owner)
    (howner : ∀ op ∈ ops, owner op.id = some op.connectorId) :
    (r.fillOperations ops).Sound owner := by
  induction ops generalizing r with
  | nil => exact h
  | cons op ops ih =>
    obtain ⟨hop, hops⟩ := List.forall_mem_cons.mp howner
    refine ih ?_ hops
    unfold fillOperation
    split
    · exact h
    · exact h.put hop

/-- What belongs to the same connectors as before is still sound. -/
theorem Sound.of_owner {owner' : ℕ → Option ℕ} (h : r.Sound owner)
    (hsame : ∀ c i, r.Has c i → owner' i = owner i) : r.Sound owner' :=
  fun c i hhas => ⟨(hsame c i hhas).trans (h c i hhas).1, (h c i hhas).2⟩

/-! ### What is found -/

variable {owner' : ℕ → Option ℕ}

theorem getOperation_register {ops : List Operation} (h : r.Sound owner)
    (h' : (r.register cid ops).Sound owner') :
    ((r.register cid ops).getOperation i).isSome = true ↔
      (r.getOperation i).isSome = true ∨ ∃ op ∈ ops, op.id = i := by
  rw [getOperation_isSome_iff h, getOperation_isSome_iff h']
  simp only [has_register, exists_or, exists_eq_left]

theorem getOperation_unregisterOperation {id : ℕ} (h : r.Sound owner) :
    ((r.unregisterOperation id).getOperation i).isSome = true ↔
      (r.getOperation i).isSome = true ∧ ¬ i = id := by
  rw [getOperation_isSome_iff h, getOperation_isSome_iff (h.unregisterOperation id)]
  simp only [has_unregisterOperation h, exists_and_right, ne_eq]

theorem getOperation_unregisterConnector (h : r.Sound owner) :
    ((r.unregisterConnector cid).getOperation i).isSome = true ↔
      (r.getOperation i).isSome = true ∧ ¬ owner i = some cid := by
  rw [getOperation_isSome_iff h, getOperation_isSome_iff (h.unregisterConnector cid)]
  simp only [has_unregisterConnector]
  constructor
  · rintro ⟨c, hhas, hne⟩
    refine ⟨⟨c, hhas⟩, fun hown => hne ?_⟩
    exact Option.some.inj ((h c i hhas).1.symm.trans hown)
  · rintro ⟨⟨c, hhas⟩, hne⟩
    exact ⟨c, hhas, fun hc => hne (hc ▸ (h c i hhas).1)⟩

theorem getOperation_fillOperations {ops : List Operation} (h : r.Sound owner)
    (h' : (r.fillOperations ops).Sound owner') :
    ((r.fillOperations ops).getOperation i).isSome = true ↔
      (r.getOperation i).isSome = true ∨
        ∃ op ∈ ops, op.id = i ∧ op.connectorId ∈ r.connectors := by
  rw [getOperation_isSome_iff h, getOperation_isSome_iff h']
  simp only [has_fillOperations, exists_or]
  refine or_congr_right ⟨?_, ?_⟩
  · rintro ⟨c, hc, op, hop, rfl, hid⟩
    exact ⟨op, hop, hid, hc⟩
  · rintro ⟨op, hop, hid, hc⟩
    exact ⟨op.connectorId, hc, op, hop, rfl, hid⟩

end ConnectorRegistry

end LunaCore.Connectors
