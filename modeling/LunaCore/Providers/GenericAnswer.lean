import LunaCore.Providers.GenericTurn

/-! What a turn of `GenericProvider` returns, read off the events of its stream alone.

        events    chunk  chunk  …                  →  gathered            →  blocks
        awaits    RPUSH  INCR  PUBLISH  RPUSH …

    A chunk's text is gathered before the awaits that show it and its calls after them. Once the turn
    returns, what was gathered is what the events say, wherever the awaits came between. -/

namespace LunaCore.Providers.Generic
open LunaCore.Values LunaCore.Schemes
open LunaCore.Stream (Kind)

variable (str : Json → String) (loads : String → Loaded)

/-! ### What a turn returns -/

/-- The deltas of an event. -/
def ApiEvent.deltas : ApiEvent → List Delta
  | .chunk choices => chunkDeltas str choices
  | .delta .text text => [.text text]
  | .delta .thinking text => [.thinking text]
  | .webSearch | .completed _ | .other => []

/-- The events of a stream, however the provider's awaits came between. -/
def eventsOf (as : List Action) : List ApiEvent :=
  as.filterMap fun
    | .event e => some e
    | _ => none

/-- The response a stream ends on. -/
def lastResponse (events : List ApiEvent) : Option (List OutputItem) :=
  (events.filterMap ApiEvent.response).getLast?

/-- What a stream answers: the last completed response, or else what its deltas gather to. -/
def answered (events : List ApiEvent) : Except String (List AnswerBlock × Option String) :=
  match lastResponse events with
  | some output => responsesOutputToBlocks loads output
  | none => ((gather (events.flatMap (ApiEvent.deltas str))).toCanonical loads).map fun canonical =>
      (canonical.1.map .ofStreamed, canonical.2)

/-- The texts of a kind that are still to be appended. -/
def toAppend (kind : Kind) (ops : List Op) : List String :=
  ops.filterMap fun
    | .append k text => if k = kind then some text else none
    | _ => none

/-- What is gathered once the event at hand is done. -/
def Completion.soon (s : Completion) (ops : List Op) (calls : List ToolFragment) : Accumulator where
  textParts := s.turn.textParts ++ toAppend .text ops
  thinkingParts := s.turn.thinkingParts ++ toAppend .thinking ops
  toolCalls := calls.foldl Accumulator.addFragment s.toolCalls

@[simp] theorem toAppend_nil (kind : Kind) : toAppend kind [] = [] := rfl

theorem toAppend_append (kind : Kind) (ops more : List Op) :
    toAppend kind (ops ++ more) = toAppend kind ops ++ toAppend kind more := List.filterMap_append

theorem toAppend_ensureStarted (kind : Kind) (s : Streamed) : toAppend kind s.ensureStarted = [] := by
  rw [Streamed.ensureStarted]
  split <;> rfl

section
variable {s t : Completion}

theorem soon_nil (s : Completion) : s.soon [] [] = s.accumulator := by
  simp [Completion.soon, Completion.accumulator]

/-- Doing the next thing gathers what it should. -/
theorem soon_run (sequence : Option ℕ) (op : Op) (ops : List Op) (calls : List ToolFragment) :
    ({ s with turn := s.turn.run sequence op } : Completion).soon ops calls =
      s.soon (op :: ops) calls := by
  cases op with
  | append kind text => cases kind <;> simp [Completion.soon, Streamed.run, toAppend]
  | _ => rfl

theorem soon_proceed (ops : List Op) (calls : List ToolFragment) :
    ∃ ops' calls', (s.proceed ops calls).pc = .streaming ops' calls' ∧
      (s.proceed ops calls).soon ops' calls' = s.soon ops calls := by
  rw [Completion.proceed]
  split
  case isTrue hops =>
    subst hops
    exact ⟨[], [], rfl, rfl⟩
  case isFalse => exact ⟨ops, calls, rfl, rfl⟩

/-- The deltas of a chunk, gathered. -/
theorem foldl_add_parts (deltas : List Delta) (a : Accumulator) (hgiven : ∀ text,
      .text text ∈ deltas ∨ .thinking text ∈ deltas → text ≠ "") :
    deltas.foldl Accumulator.add a =
      ⟨a.textParts ++ toAppend .text (deltas.flatMap opsOf),
        a.thinkingParts ++ toAppend .thinking (deltas.flatMap opsOf),
        (deltas.flatMap Delta.fragments).foldl Accumulator.addFragment a.toolCalls⟩ := by
  induction deltas generalizing a with
  | nil => simp
  | cons delta deltas ih =>
    rw [List.foldl_cons, ih _ fun text h => hgiven text (h.imp (List.mem_cons_of_mem _)
      (List.mem_cons_of_mem _))]
    cases delta with
    | text text =>
      have htext := hgiven text (.inl List.mem_cons_self)
      simp [Accumulator.add, Accumulator.addText, htext, opsOf, publishDelta, toAppend,
        Delta.fragments]
    | thinking text =>
      have htext := hgiven text (.inr List.mem_cons_self)
      simp [Accumulator.add, Accumulator.addThinking, htext, opsOf, publishDelta, toAppend,
        Delta.fragments]
    | toolCalls fragments =>
      simp [Accumulator.add, Accumulator.addToolCallDelta, opsOf, Delta.fragments]

/-- STEP: an event will have gathered its deltas. -/
theorem soon_event (s : Completion) (e : ApiEvent) :
    s.soon (onEvent str s.turn e) (callsOf str e) =
      (e.deltas str).foldl Accumulator.add s.accumulator := by
  cases e with
  | chunk choices =>
    have hgiven : ∀ text, .text text ∈ chunkDeltas str choices ∨
        .thinking text ∈ chunkDeltas str choices → text ≠ "" := fun text h =>
      chunkDeltas_given str h
    rw [ApiEvent.deltas, foldl_add_parts _ _ hgiven]
    simp only [onEvent, callsOf]
    split
    case isTrue h =>
      rw [h.1]
      rfl
    case isFalse =>
      simp only [Completion.soon, toAppend_append, toAppend_ensureStarted, List.nil_append]
      rfl
  | delta kind text =>
    by_cases htext : text = ""
    · subst htext
      cases kind <;>
        simp [onEvent, callsOf, Completion.soon, ApiEvent.deltas, Accumulator.add,
          Accumulator.addText, Accumulator.addThinking, Completion.accumulator]
    · cases kind <;>
        simp [onEvent, callsOf, Completion.soon, ApiEvent.deltas, Accumulator.add,
          Accumulator.addText, Accumulator.addThinking, Completion.accumulator, htext, publishDelta,
          toAppend]
  | webSearch => simp [onEvent, callsOf, Completion.soon, ApiEvent.deltas, Completion.accumulator,
      publishBuiltin, toAppend]
  | completed output => simp [onEvent, callsOf, Completion.soon, ApiEvent.deltas,
      Completion.accumulator]
  | other => simp [onEvent, callsOf, Completion.soon, ApiEvent.deltas, Completion.accumulator]

end

/-! ### Runs -/

/-- What the events so far say of a turn. -/
def Told (events : List ApiEvent) (s : Completion) : Prop :=
  s.finalResponse = lastResponse events ∧ match s.pc with
    | .opening ops => s.soon ops [] = gather (events.flatMap (ApiEvent.deltas str))
    | .streaming ops calls => s.soon ops calls = gather (events.flatMap (ApiEvent.deltas str))
    | .savingPartial e | .deletingKeys e => e.returns = none
    | .saving blocks thinking => answered str loads events = .ok (blocks, thinking)
    | .completing blocks | .closing blocks => ∃ thinking,
        answered str loads events = .ok (blocks, thinking) ∧ s.rows = [⟨blocks, thinking, false⟩]
    | .ended (.returned blocks) => ∃ thinking, answered str loads events = .ok (blocks, thinking) ∧
        s.rows = [⟨blocks, thinking, false⟩] ∧ s.turn.Cleared
    | _ => True

theorem told_opened (api : Api) : Told str loads [] (.opened api) := by
  cases api <;> exact ⟨rfl, rfl⟩

section
variable {s t : Completion} {events : List ApiEvent}

theorem lastResponse_append (events : List ApiEvent) (e : ApiEvent) :
    lastResponse (events ++ [e]) = e.response.or (lastResponse events) := by
  rw [lastResponse, lastResponse, List.filterMap_append]
  cases he : e.response with
  | none => simp [he]
  | some output => simp [he]

/-- On to the next await, of a turn that will have gathered what came. -/
theorem told_proceed {ops : List Op} {calls : List ToolFragment}
    (hfinal : s.finalResponse = lastResponse events)
    (hsoon : s.soon ops calls = gather (events.flatMap (ApiEvent.deltas str))) :
    Told str loads events (s.proceed ops calls) := by
  obtain ⟨ops', calls', hpc, hsame⟩ := @soon_proceed s ops calls
  refine ⟨?_, ?_⟩
  · rw [← hfinal, Completion.proceed]
    split <;> rfl
  · rw [hpc]
    exact hsame.trans hsoon

/-- An event arrives between two others. -/
theorem told_event (hs : Told str loads events s) (hpc : s.pc = .streaming [] []) (e : ApiEvent) :
    Told str loads (events ++ [e]) ({ s with
      finalResponse := e.response.or s.finalResponse }.proceed (onEvent str s.turn e)
        (callsOf str e)) := by
  obtain ⟨hfinal, hat⟩ := hs
  rw [hpc] at hat
  have hsoon := (soon_nil s).symm.trans hat
  have hevent : ({ s with finalResponse := e.response.or s.finalResponse } : Completion).soon
      (onEvent str s.turn e) (callsOf str e) =
      gather ((events ++ [e]).flatMap (ApiEvent.deltas str)) := by
    rw [List.flatMap_append, gather, List.foldl_append, ← gather, ← hsoon, List.flatMap_singleton]
    exact soon_event str s e
  refine told_proceed str loads ?_ hevent
  rw [lastResponse_append, ← hfinal]

/-- The stream is over. -/
theorem told_finish (hs : Told str loads events s) (hpc : s.pc = .streaming [] []) :
    Told str loads events (s.finish loads) := by
  obtain ⟨hfinal, hat⟩ := hs
  rw [hpc] at hat
  have hsoon := (soon_nil s).symm.trans hat
  have hanswer : s.finalBlocks loads = answered str loads events := by
    rw [Completion.finalBlocks, answered, hfinal]
    cases lastResponse events with
    | some output => rfl
    | none =>
      change s.streamedBlocks loads = _
      rw [Completion.streamedBlocks, hsoon]
  rw [Completion.finish]
  cases hblocks : s.finalBlocks loads with
  | error error => exact ⟨hfinal, trivial⟩
  | ok answer =>
    obtain ⟨blocks, thinking⟩ := answer
    exact ⟨hfinal, hanswer ▸ hblocks⟩

/-- A step of no event is told by the same events. -/
theorem told_other {a : Action} (hs : Told str loads events s)
    (h : completionStep str loads s a = some t) (ha : ∀ e, a ≠ .event e) :
    Told str loads events t := by
  cases completionStep_cases str loads h with
  | event e => exact absurd rfl (ha e)
  | opened sequence op ops hpc =>
    obtain ⟨hfinal, hat⟩ := hs
    rw [hpc] at hat
    have hsoon := (soon_run sequence op ops []).trans hat
    refine ⟨hfinal, ?_⟩
    by_cases hops : ops = []
    · subst hops
      exact hsoon
    · simp only [if_neg hops]
      exact hsoon
  | ran sequence op ops calls hpc =>
    obtain ⟨hfinal, hat⟩ := hs
    rw [hpc] at hat
    exact told_proceed str loads hfinal ((soon_run sequence op ops calls).trans hat)
  | finished hpc => exact told_finish str loads hs hpc
  | observedAbort hpc | again hpc => exact ⟨hs.1, rfl⟩
  | lost e he =>
    refine ⟨hs.1, ?_⟩
    cases e with
    | returned blocks => cases he
    | _ => trivial
  | raised rateLimit ops calls e hpc he => exact ⟨hs.1, he⟩
  | partialSaved e stored hpc =>
    obtain ⟨hfinal, hat⟩ := hs
    rw [hpc] at hat
    rw [Completion.savePartial]
    split
    · exact ⟨hfinal, hat⟩
    · exact ⟨hfinal, hat⟩
    · exact ⟨hfinal, trivial⟩
  | keysDeleted e hpc =>
    obtain ⟨hfinal, hat⟩ := hs
    rw [hpc] at hat
    refine ⟨hfinal, ?_⟩
    cases e with
    | returned blocks => cases hat
    | _ => trivial
  | closed blocks hpc =>
    obtain ⟨hfinal, hat⟩ := hs
    rw [hpc] at hat
    obtain ⟨thinking, hanswer, hrows⟩ := hat
    exact ⟨hfinal, thinking, hanswer, hrows, deleteKeys_cleared⟩
  | saved blocks thinking hpc hrows =>
    obtain ⟨hfinal, hat⟩ := hs
    rw [hpc] at hat
    exact ⟨hfinal, thinking, hat, rfl⟩
  | completed blocks hpc =>
    obtain ⟨hfinal, hat⟩ := hs
    rw [hpc] at hat
    exact ⟨hfinal, hat⟩
  | _ => exact ⟨hs.1, trivial⟩

theorem eventsOf_append (as : List Action) (a : Action) :
    eventsOf (as ++ [a]) = eventsOf as ++ eventsOf [a] := List.filterMap_append

/-- STEP: one more action tells of one more event, if it is one. -/
theorem told_step {seen : List Action} {a : Action} (hs : Told str loads (eventsOf seen) s)
    (h : completionStep str loads s a = some t) : Told str loads (eventsOf (seen ++ [a])) t := by
  rw [eventsOf_append]
  by_cases ha : ∀ e, a ≠ .event e
  · have hnone : eventsOf [a] = [] := by
      cases a with
      | event e => exact absurd rfl (ha e)
      | _ => rfl
    rw [hnone, List.append_nil]
    exact told_other str loads hs h ha
  · obtain ⟨e, rfl⟩ := not_forall_not.mp ha
    cases completionStep_cases str loads h with
    | event e hpc => exact told_event str loads hs hpc e

end

/-- REFINEMENT: a turn that returns has read its answer off the events alone, of either API and
    however its awaits came between them: it returns what they answer, its only row holds that and
    is final, and no key of it is left. -/
theorem returned_answer {api : Api} {as : List Action} {s : Completion}
    {blocks : List AnswerBlock}
    (h : runFrom (completionStep str loads) (.opened api) as = some s)
    (hreturned : s.pc = .ended (.returned blocks)) :
    ∃ thinking, answered str loads (eventsOf as) = .ok (blocks, thinking) ∧
      s.rows = [⟨blocks, thinking, false⟩] ∧ s.turn.Cleared := by
  have hstep : ∀ seen s a t, Told str loads (eventsOf seen) s → completionStep str loads s a = some t →
      Told str loads (eventsOf (seen ++ [a])) t := fun _ _ _ _ hs ht => told_step str loads hs ht
  have hopened : Told str loads (eventsOf []) (.opened api) := told_opened str loads api
  have hat := (history_run hstep hopened h).2
  rw [hreturned] at hat
  exact hat

/-! ### An answer with a source -/

/-- The text is shown piece by piece; the completed response says where it is from. -/
def citedAnswer : List Action :=
  [.run (some 4), .run none, .event .webSearch, .run none, .run none,
    .event (.delta .text "It "), .run none, .run none, .run none, .run none,
    .event (.delta .text "rains."), .run none, .run none, .run none, .run none,
    .event (.completed [.webSearchCall (some "ws_1") (some " rain ") ["rain"],
      .message [⟨true, "It rains.", [⟨true, some "https://weather"⟩]⟩]]),
    .finish, .saveMessage, .completed, .deleteKeys]

def undecoded : String → Loaded := fun _ => .decodeError

/-- What a turn that ended returned. -/
def Completion.returned (s : Completion) : Option (List AnswerBlock) :=
  match s.pc with
  | .ended e => e.returns
  | _ => none

theorem returned_eq_some {s : Completion} {blocks : List AnswerBlock}
    (h : s.returned = some blocks) : s.pc = .ended (.returned blocks) := by
  rw [Completion.returned] at h
  split at h
  · next e hpc =>
    cases e with
    | returned returned =>
      obtain rfl := Option.some.inj h
      exact hpc
    | _ => cases h
  · cases h

/-- What is stored is more than what was shown: it has the sources. -/
theorem returned_answer_cited : ∃ s thinking,
    runFrom (completionStep (fun _ => "") undecoded) (.opened .responses) citedAnswer = some s ∧
      s.turn.text = "It rains." ∧
      answered (fun _ => "") undecoded (eventsOf citedAnswer) = .ok ([.webSearchCall (some "ws_1")
        ["rain"], .text "It rains.\n\nSources: https://weather"], thinking) ∧
      s.turn.Cleared := by
  have hdone : ((runFrom (completionStep (fun _ => "") undecoded) (.opened .responses)
      citedAnswer).bind fun s => s.returned.map fun blocks => (blocks, s.turn.text)) =
      some ([.webSearchCall (some "ws_1") ["rain"],
        .text "It rains.\n\nSources: https://weather"], "It rains.") := by
    decide +kernel
  obtain ⟨s, hrun, hs⟩ := Option.bind_eq_some_iff.mp hdone
  obtain ⟨blocks, hblocks, heq⟩ := Option.map_eq_some_iff.mp hs
  simp only [Prod.mk.injEq] at heq
  obtain ⟨rfl, htext⟩ := heq
  obtain ⟨thinking, hanswer, -, hcleared⟩ :=
    returned_answer (fun _ => "") undecoded hrun (returned_eq_some hblocks)
  exact ⟨s, thinking, hrun, htext, hanswer, hcleared⟩

end LunaCore.Providers.Generic
