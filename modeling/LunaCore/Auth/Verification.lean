import LunaCore.Providers.StreamedTurn
import LunaCore.Schemes.Machine
import LunaCore.Schemes.Parties

/-! The e-mail verification codes of one user.

    `create_verification_code`:  UPDATE the unused codes ─▶ INSERT the next, COMMIT
    `verify_code`:               user.is_verified ─▶ SELECT the newest unused ─▶ decide ─▶ COMMIT

    A statement sees what was committed when it began. An UPDATE keeps its rows locked until its
    COMMIT, and another UPDATE of them waits. What `verify_code` writes is worked out from the row
    as its SELECT read it: attempts plus one, and used or not. -/

namespace LunaCore.Auth.Verification
open LunaCore.Schemes
open LunaCore.Providers (strip)

/-- What the settings and `hash_token` give. -/
structure Setup where
  hashToken : String → String
  maxAttempts : ℕ
  ttl : ℕ

/-- A row of `email_verification_codes`. -/
structure Code where
  codeHash : String
  createdAt : ℕ
  expiresAt : ℕ
  attempts : ℕ
  usedAt : Option ℕ
  /-- For proofs only: how many submitted values it was compared against. -/
  compared : ℕ
  deriving DecidableEq, Repr

/-- `VerificationResult.reason`; `ok` for the first two. -/
inductive Reason where
  | verified | alreadyVerified | invalid | expired | tooManyAttempts | noCode
  deriving DecidableEq, Repr

/-- Where a call is, and what it holds in its hands. -/
inductive Pc where
  /-- `create_verification_code`: the UPDATE began and saw these codes unused. -/
  | updating (startedAt : ℕ) (codes : List ℕ)
  /-- It has changed these: INSERT and COMMIT. -/
  | inserting (startedAt : ℕ) (codes : List ℕ)
  /-- `verify_code`: the user is not verified; the SELECT. -/
  | selecting (now : ℕ) (rawCode : String)
  /-- It read this many attempts of the code and came to this reason: COMMIT. -/
  | committing (now code attempts : ℕ) (reason : Reason)
  | answered (reason : Option Reason)
  deriving DecidableEq, Repr

structure State where
  now : ℕ
  codes : List Code
  /-- `user.verified_at`, which is set with `user.is_verified`. -/
  verifiedAt : Option ℕ
  calls : List Pc

inductive Action where
  | wait
  | create
  | verify (rawCode : String)
  | select (v : ℕ) (code : Option ℕ)
  | insert (v : ℕ) (rawCode : String)
  | advance (v : ℕ)
  deriving DecidableEq, Repr

def start : State := ⟨0, [], none, []⟩

/-- The codes that are not used, by their places. -/
def unused (codes : List Code) : List ℕ :=
  (List.range codes.length).filter fun i => (codes[i]?).any fun code => code.usedAt.isNone

/-- ORDER BY created_at DESC LIMIT 1, where a tie may go either way. -/
def newest (codes : List Code) (i : ℕ) : Bool :=
  (codes[i]?).any fun code => code.usedAt.isNone &&
    codes.all fun other => other.usedAt.isSome || other.createdAt ≤ code.createdAt

/-- Another call has changed the code and not committed. -/
def State.locked (s : State) (i : ℕ) : Bool :=
  s.calls.any fun pc => match pc with
    | .inserting _ codes => i ∈ codes
    | _ => false

/-- What `verify_code` makes of the code it read. -/
def decideCode (setup : Setup) (now : ℕ) (rawCode : String) (code : Code) : Reason :=
  if code.expiresAt ≤ now then .expired
  else if setup.maxAttempts < code.attempts + 1 then .tooManyAttempts
  else if setup.hashToken (strip rawCode) ≠ code.codeHash then .invalid
  else .verified

/-- The code was compared with the submitted value. -/
def Reason.compared : Reason → Bool
  | .invalid | .verified => true
  | _ => false

/-- The code after the COMMIT of a call that read so many attempts. -/
def Code.written (code : Code) (now attempts : ℕ) (reason : Reason) : Code :=
  { code with
    attempts := attempts + 1
    usedAt := if reason = .invalid then code.usedAt else some now }

/-- The UPDATE of `create_verification_code`, once it has its rows. -/
def burn (now : ℕ) (picked : List ℕ) (codes : List Code) : List Code :=
  codes.mapIdx fun i code => if i ∈ picked then { code with usedAt := some now } else code

/-- The SELECT of `verify_code` and what follows up to its COMMIT. -/
def select (setup : Setup) (s : State) (now : ℕ) (rawCode : String) :
    Option ℕ → Option (List Code × Pc)
  | none => if unused s.codes = [] then some (s.codes, .answered (some .noCode)) else none
  | some i => (s.codes[i]?).bind fun code =>
    if newest s.codes i then
      let reason := decideCode setup now rawCode code
      if reason = .expired then some (s.codes, .answered (some .expired))
      else some (s.codes.set i { code with
          compared := code.compared + if reason.compared then 1 else 0 },
        .committing now i code.attempts reason)
    else none

def step (setup : Setup) (s : State) : Action → Option State
  | .wait => some { s with now := s.now + 1 }
  | .create => some { s with calls := s.calls ++ [.updating s.now (unused s.codes)] }
  | .verify rawCode => some { s with calls := s.calls ++
      [if s.verifiedAt.isSome then .answered (some .alreadyVerified)
        else .selecting s.now rawCode] }
  | .select v code => match s.calls[v]? with
    | some (.selecting now rawCode) => (select setup s now rawCode code).map fun u =>
        { s with codes := u.1, calls := s.calls.set v u.2 }
    | _ => none
  | .insert v rawCode => match s.calls[v]? with
    | some (.inserting startedAt picked) => some { s with
        codes := burn startedAt picked s.codes ++
          [⟨setup.hashToken rawCode, startedAt, startedAt + setup.ttl, 0, none, 0⟩]
        calls := s.calls.set v (.answered none) }
    | _ => none
  | .advance v => match s.calls[v]? with
    | some (.updating startedAt picked) =>
      if picked.any s.locked then none -- the UPDATE waits for the other's COMMIT
      else some { s with
        calls := s.calls.set v (.inserting startedAt (picked.filter (· ∈ unused s.codes))) }
    | some (.committing now i attempts reason) =>
      if s.locked i then none
      else (s.codes[i]?).map fun code => { s with
        codes := s.codes.set i (code.written now attempts reason)
        verifiedAt := if reason = .verified then some now else s.verifiedAt
        calls := s.calls.set v (.answered (some reason)) }
    | _ => none

/-- The code a call has read and not yet written. -/
def Pc.code : Pc → Option ℕ
  | .committing _ i _ _ => some i
  | _ => none

/-- The code by which the call is about to verify the account. -/
def State.verifies (s : State) (v : ℕ) : Option ℕ :=
  match s.calls[v]? with
  | some (.committing _ i _ .verified) => some i
  | _ => none

/-- The code a call has found good, and not yet committed that. -/
def Pc.found : Pc → Option ℕ
  | .committing _ i _ .verified => some i
  | _ => none

/-- When the call began that is about to SELECT; it takes the time from then. -/
def State.began (s : State) (v : ℕ) : Option ℕ :=
  match s.calls[v]? with
  | some (.selecting now _) => some now
  | _ => none

/-- The codes the call has burned, about to insert the next. -/
def State.burned (s : State) (v : ℕ) : Option (List ℕ) :=
  match s.calls[v]? with
  | some (.inserting _ picked) => some picked
  | _ => none

/-- At most one code is unused. -/
def Single (codes : List Code) : Prop :=
  ∀ (i j : ℕ) (code other : Code), codes[i]? = some code → codes[j]? = some other →
    code.usedAt = none → other.usedAt = none → i = j

/-- No code was compared with more values than allowed, what verifies the account is an unused code
    in its time, and there is at most one unused code. -/
structure Bounded (setup : Setup) (s : State) (a : Action) (t : State) : Prop where
  attempts : ∀ (i : ℕ) (code : Code), t.codes[i]? = some code → code.compared ≤ setup.maxAttempts
  valid : ∀ v i code, a = .advance v → s.verifies v = some i → s.codes[i]? = some code →
    code.usedAt = none ∧ s.now < code.expiresAt
  single : Single t.codes

/-- A code is read while no other call has it in its hands, and has not expired since the reader
    began. Between the SELECT of a call that found its code good and the COMMIT of it, the clock does
    not come to the end of the code, and no creation commits that burned it. And a new code comes
    when the UPDATE has burned all that are unused. -/
def Alone (s : State) (a : Action) : Prop :=
  match a with
  | .wait => ∀ pc ∈ s.calls, ∀ i ∈ pc.found, ∀ code ∈ s.codes[i]?, s.now + 1 < code.expiresAt
  | .select v (some i) => (∀ pc ∈ s.calls, pc.code ≠ some i) ∧
      ∀ began ∈ s.began v, ∀ code ∈ s.codes[i]?, code.expiresAt ≤ s.now → code.expiresAt ≤ began
  | .insert v _ => ∀ picked ∈ s.burned v,
      (∀ i ∈ unused s.codes, i ∈ picked) ∧ ∀ pc ∈ s.calls, ∀ i ∈ pc.found, i ∉ picked
  | _ => True

instance (s : State) : ∀ a, Decidable (Alone s a)
  | .wait => inferInstanceAs (Decidable (∀ pc ∈ s.calls, ∀ i ∈ pc.found, ∀ code ∈ s.codes[i]?, _))
  | .select v (some i) => inferInstanceAs (Decidable ((∀ pc ∈ s.calls, _) ∧
      ∀ began ∈ s.began v, ∀ code ∈ s.codes[i]?, _ → _))
  | .insert v _ => inferInstanceAs (Decidable (∀ picked ∈ s.burned v,
      (∀ i ∈ unused s.codes, _) ∧ ∀ pc ∈ s.calls, ∀ i ∈ pc.found, _))
  | .select _ none => isTrue trivial
  | .advance _ | .create | .verify _ => isTrue trivial

/-- What was compared is counted, on the row or in the one call that has the code in its hands. -/
structure Counted (setup : Setup) (s : State) : Prop where
  capped : ∀ (i : ℕ) (code : Code), s.codes[i]? = some code → code.compared ≤ setup.maxAttempts
  settled : ∀ (i : ℕ) (code : Code), s.codes[i]? = some code →
    (∀ pc ∈ s.calls, pc.code ≠ some i) → code.compared ≤ code.attempts
  inHand : ∀ (v : ℕ) (pc : Pc), s.calls[v]? = some pc → ∀ now i attempts reason,
    pc = .committing now i attempts reason →
      ∃ code, s.codes[i]? = some code ∧ code.compared ≤ attempts + 1
  alone : ∀ (v w i : ℕ) (pc other : Pc), s.calls[v]? = some pc → s.calls[w]? = some other →
    pc.code = some i → other.code = some i → v = w

/-- INVARIANT: between SELECT and COMMIT, a code that was found good is unused and in its time. -/
def Usable (s : State) : Prop :=
  ∀ (v : ℕ) (pc : Pc), s.calls[v]? = some pc → ∀ i, pc.found = some i →
    ∃ code, s.codes[i]? = some code ∧ code.usedAt = none ∧ s.now < code.expiresAt

theorem counted_start (setup : Setup) : Counted setup start :=
  ⟨by simp [start], by simp [start], by simp [start], by simp [start]⟩

theorem mem_unused_iff {codes : List Code} {i : ℕ} :
    i ∈ unused codes ↔ ∃ code, codes[i]? = some code ∧ code.usedAt = none := by
  unfold unused
  rw [List.mem_filter, List.mem_range]
  constructor
  · rintro ⟨_, hany⟩
    obtain ⟨code, hcode, hnone⟩ := (Option.any_eq_true _ _).mp hany
    exact ⟨code, hcode, Option.isNone_iff_eq_none.mp hnone⟩
  · rintro ⟨code, hcode, hnone⟩
    exact ⟨(List.getElem?_eq_some_iff.mp hcode).1,
      (Option.any_eq_true _ _).mpr ⟨code, hcode, Option.isNone_iff_eq_none.mpr hnone⟩⟩

/-! ### What each step does -/

/-- A call begins. -/
theorem Counted.join {setup : Setup} {s : State} {pc : Pc} (hs : Counted setup s)
    (hpc : pc.code = none) : Counted setup { s with calls := s.calls ++ [pc] } := by
  refine ⟨hs.capped, fun i code hi hnone => ?_, forall_joined hs.inHand ?_,
    fun v w i one other => one_joined (fun v w => hs.alone v w i) ?_ v w one other⟩
  · exact hs.settled i code hi fun other hother => hnone other (List.mem_append_left _ hother)
  · rintro now i attempts reason rfl
    cases hpc
  · exact fun h => absurd (hpc.symm.trans h) nofun

/-- A call that had no code in its hands and has none after. -/
theorem Counted.move {setup : Setup} {s : State} {v : ℕ} {pc next : Pc} (hs : Counted setup s)
    (hv : s.calls[v]? = some pc) (hpc : pc.code = none) (hnext : next.code = none) :
    Counted setup { s with calls := s.calls.set v next } := by
  refine ⟨hs.capped, fun i code hi hnone => ?_, forall_moved hs.inHand ?_,
    fun w u i one other => one_moved (fun w u => hs.alone w u i) ?_ w u one other⟩
  · refine hs.settled i code hi fun other hother hcode => ?_
    obtain ⟨w, hw⟩ := List.getElem?_of_mem hother
    have hne : v ≠ w := by
      rintro rfl
      obtain rfl := Option.some.inj (hv.symm.trans hw)
      rw [hpc] at hcode
      cases hcode
    exact hnone other (List.mem_of_getElem? ((moved_other next hne).trans hw)) hcode
  · rintro now i attempts reason rfl
    cases hnext
  · exact fun h => absurd (hnext.symm.trans h) nofun

/-- A code is taken into hand by the only call that has it there. -/
theorem Counted.take {setup : Setup} {s : State} {v i now : ℕ} {pc : Pc} {code : Code}
    {reason : Reason} (hs : Counted setup s) (hv : s.calls[v]? = some pc) (hpc : pc.code = none)
    (hi : s.codes[i]? = some code) (hnobody : ∀ other ∈ s.calls, other.code ≠ some i)
    (hcap : reason.compared = true → code.attempts + 1 ≤ setup.maxAttempts) :
    Counted setup { s with
      codes := s.codes.set i { code with
        compared := code.compared + if reason.compared then 1 else 0 }
      calls := s.calls.set v (.committing now i code.attempts reason) } := by
  have hle : code.compared ≤ code.attempts := hs.settled i code hi hnobody
  refine ⟨forall_moved hs.capped ?_, fun j other hj hnone => ?_,
    forall_moved (fun w one hw now' j n reason' hone => ?_) ?_,
    fun w u j one other => one_moved (fun w u => hs.alone w u j) ?_ w u one other⟩
  · show code.compared + _ ≤ _
    have hcapped := hs.capped i code hi
    split
    case isTrue h =>
      have := hcap h
      omega
    case isFalse => omega
  · -- a code in nobody's hands is another one, and was in nobody's before
    have hne : i ≠ j := by
      rintro rfl
      exact hnone _ (List.mem_of_getElem? (moved_self _ hv)) rfl
    rw [moved_other _ hne] at hj
    refine hs.settled j other hj fun one hone hcode => ?_
    obtain ⟨w, hw⟩ := List.getElem?_of_mem hone
    have hvw : v ≠ w := by
      rintro rfl
      obtain rfl := Option.some.inj (hv.symm.trans hw)
      rw [hpc] at hcode
      cases hcode
    exact hnone one (List.mem_of_getElem? ((moved_other _ hvw).trans hw)) hcode
  · obtain ⟨other, hother, hcount⟩ := hs.inHand w one hw now' j n reason' hone
    have hne : i ≠ j := by
      rintro rfl
      subst hone
      exact hnobody _ (List.mem_of_getElem? hw) rfl
    exact ⟨other, (moved_other _ hne).trans hother, hcount⟩
  · intro now' j n reason' heq
    obtain ⟨rfl, rfl, rfl, rfl⟩ := Pc.committing.inj heq
    refine ⟨_, moved_self _ hi, ?_⟩
    show code.compared + _ ≤ _
    split <;> omega
  · intro h w other hw hother
    exact absurd (hother.trans h.symm) (hnobody other (List.mem_of_getElem? hw))

/-- The call that has the code in its hands writes it. -/
theorem Counted.commit {setup : Setup} {s : State} {v i now n : ℕ} {reason : Reason} {code : Code}
    {answer : Option Reason} {verifiedAt : Option ℕ} (hs : Counted setup s)
    (hv : s.calls[v]? = some (.committing now i n reason)) (hi : s.codes[i]? = some code) :
    Counted setup { s with
      codes := s.codes.set i (code.written now n reason)
      verifiedAt := verifiedAt
      calls := s.calls.set v (.answered answer) } := by
  refine ⟨forall_moved hs.capped (hs.capped i code hi), fun j other hj hnone => ?_,
    fun w one hw now' j m reason' hone => ?_,
    fun w u j one other => one_moved (fun w u => hs.alone w u j) (fun h => by cases h) w u one other⟩
  · rcases moved_cases hj with ⟨rfl, rfl⟩ | ⟨hne, hj⟩
    · obtain ⟨code', hcode', hcount⟩ := hs.inHand v _ hv now i n reason rfl
      obtain rfl := Option.some.inj (hi.symm.trans hcode')
      exact hcount
    · refine hs.settled j other hj fun one hone hcode => ?_
      obtain ⟨w, hw⟩ := List.getElem?_of_mem hone
      have hvw : v ≠ w := by
        rintro rfl
        obtain rfl := Option.some.inj (hv.symm.trans hw)
        exact hne (Option.some.inj hcode)
      exact hnone one (List.mem_of_getElem? ((moved_other _ hvw).trans hw)) hcode
  · subst hone
    rcases moved_cases hw with ⟨_, heq⟩ | ⟨hvw, hw⟩
    · cases heq
    · obtain ⟨other, hother, hcount⟩ := hs.inHand w _ hw now' j m reason' rfl
      have hne : i ≠ j := by
        rintro rfl
        exact hvw (hs.alone v w i _ _ hv hw rfl rfl)
      exact ⟨other, (moved_other _ hne).trans hother, hcount⟩

theorem getElem?_burn (now : ℕ) (picked : List ℕ) (codes : List Code) (i : ℕ) :
    (burn now picked codes)[i]? =
      (codes[i]?).map fun code => if i ∈ picked then { code with usedAt := some now } else code :=
  List.getElem?_mapIdx

/-- Burning changes neither count. -/
theorem burn_cases {now i : ℕ} {picked : List ℕ} {codes : List Code} {code : Code}
    (h : (burn now picked codes)[i]? = some code) : ∃ old, codes[i]? = some old ∧
      code.compared = old.compared ∧ code.attempts = old.attempts ∧
        (code.usedAt = none → old.usedAt = none ∧ i ∉ picked) := by
  rw [getElem?_burn] at h
  obtain ⟨old, hold, rfl⟩ := Option.map_eq_some_iff.mp h
  refine ⟨old, hold, ?_⟩
  split
  case isTrue => exact ⟨rfl, rfl, fun hnone => by cases hnone⟩
  case isFalse hnot => exact ⟨rfl, rfl, fun hnone => ⟨hnone, hnot⟩⟩

/-- Codes are burned, and a new one comes that nobody has tried. -/
theorem Counted.insert {setup : Setup} {s : State} {v now : ℕ} {picked : List ℕ} {pc : Pc}
    {code : Code} {answer : Option Reason} (hs : Counted setup s) (hv : s.calls[v]? = some pc)
    (hpc : pc.code = none) (hcompared : code.compared = 0) : Counted setup { s with
      codes := burn now picked s.codes ++ [code]
      calls := s.calls.set v (.answered answer) } := by
  have hburned : Counted setup { s with codes := burn now picked s.codes } := by
    refine ⟨fun i other hi => ?_, fun i other hi hnone => ?_,
      fun w one hw now' i n reason hone => ?_, hs.alone⟩
    · obtain ⟨old, hold, hcount, _⟩ := burn_cases hi
      exact hcount ▸ hs.capped i old hold
    · obtain ⟨old, hold, hcount, hattempts, _⟩ := burn_cases hi
      rw [hcount, hattempts]
      exact hs.settled i old hold hnone
    · obtain ⟨old, hold, hcount⟩ := hs.inHand w one hw now' i n reason hone
      refine ⟨_, (getElem?_burn ..).trans (congrArg _ hold), ?_⟩
      split <;> exact hcount
  have hjoined : Counted setup { s with codes := burn now picked s.codes ++ [code] } := by
    refine ⟨forall_joined hburned.capped ?_, fun i other hi hnone => ?_,
      fun w one hw now' i n reason hone => ?_, hs.alone⟩
    · rw [hcompared]
      exact Nat.zero_le _
    · rcases joined_cases hi with hi | ⟨_, rfl⟩
      · exact hburned.settled i other hi hnone
      · rw [hcompared]
        exact Nat.zero_le _
    · obtain ⟨old, hold, hcount⟩ := hburned.inHand w one hw now' i n reason hone
      exact ⟨old, joined_old code hold, hcount⟩
  exact hjoined.move hv hpc rfl

/-! ### A code that was found good -/

theorem code_of_found {pc : Pc} {i : ℕ} (h : pc.found = some i) : pc.code = some i := by
  cases pc with
  | committing now j attempts reason =>
    cases reason with
    | verified => exact h
    | _ => cases h
  | _ => cases h

/-- The codes that calls have found good stay as usable as they were, and what moves has found none
    or one that is. -/
theorem Usable.move {s : State} {v : ℕ} {next : Pc} {codes : List Code} {verifiedAt : Option ℕ}
    (hs : Usable s)
    (hcodes : ∀ w other, s.calls[w]? = some other → v ≠ w → ∀ i code, other.found = some i →
      s.codes[i]? = some code → code.usedAt = none → s.now < code.expiresAt →
        ∃ code, codes[i]? = some code ∧ code.usedAt = none ∧ s.now < code.expiresAt)
    (hnext : ∀ i, next.found = some i →
      ∃ code, codes[i]? = some code ∧ code.usedAt = none ∧ s.now < code.expiresAt) :
    Usable { s with codes := codes, verifiedAt := verifiedAt, calls := s.calls.set v next } := by
  intro w pc hw i hi
  rcases moved_cases hw with ⟨rfl, rfl⟩ | ⟨hne, hw⟩
  · exact hnext i hi
  · obtain ⟨code, hcode, hunused, htime⟩ := hs w pc hw i hi
    exact hcodes w pc hw hne i code hi hcode hunused htime

theorem Usable.join {s : State} {pc : Pc} (hs : Usable s) (hpc : pc.found = none) :
    Usable { s with calls := s.calls ++ [pc] } :=
  forall_joined hs fun i hi => by rw [hpc] at hi; cases hi

/-- A code is read while it is unused and in its time. -/
theorem Usable.take {setup : Setup} {s : State} {v i now : ℕ} {rawCode : String} {code : Code}
    (hs : Usable s) (hi : s.codes[i]? = some code) (hnewest : newest s.codes i = true)
    (hbegan : code.expiresAt ≤ s.now → code.expiresAt ≤ now)
    (hnobody : ∀ other ∈ s.calls, other.code ≠ some i) (compared : ℕ) :
    Usable { s with
      codes := s.codes.set i { code with compared := compared }
      calls := s.calls.set v
        (.committing now i code.attempts (decideCode setup now rawCode code)) } := by
  refine hs.move (fun w other hw _ j old hj hold hunused htime => ?_) fun j hj => ?_
  · have hne : i ≠ j := by
      rintro rfl
      exact hnobody other (List.mem_of_getElem? hw) (code_of_found hj)
    exact ⟨old, (moved_other _ hne).trans hold, hunused, htime⟩
  · have hgood : decideCode setup now rawCode code = .verified ∧ j = i := by
      cases hreason : decideCode setup now rawCode code with
      | verified =>
        rw [hreason] at hj
        exact ⟨rfl, (Option.some.inj hj).symm⟩
      | _ =>
        rw [hreason] at hj
        cases hj
    obtain ⟨hreason, rfl⟩ := hgood
    have hunused : code.usedAt = none := by
      simp only [newest, hi, Option.any_some, Bool.and_eq_true] at hnewest
      exact Option.isNone_iff_eq_none.mp hnewest.1
    have htime : ¬ code.expiresAt ≤ now := by
      intro hle
      simp [decideCode, hle] at hreason
    exact ⟨_, moved_self _ hi, hunused, Nat.lt_of_not_le fun hle => htime (hbegan hle)⟩

/-- A creation that burned none of them inserts its code. -/
theorem Usable.insert {s : State} {v startedAt : ℕ} {picked : List ℕ} {code : Code} {next : Pc}
    (hs : Usable s) (hnone : ∀ pc ∈ s.calls, ∀ i ∈ pc.found, i ∉ picked)
    (hnext : next.found = none) : Usable { s with
      codes := burn startedAt picked s.codes ++ [code]
      calls := s.calls.set v next } := by
  refine hs.move (fun w other hw _ j old hj hold hunused htime => ?_)
    fun j hj => by rw [hnext] at hj; cases hj
  have hnot : j ∉ picked := hnone other (List.mem_of_getElem? hw) j hj
  have hkept : (burn startedAt picked s.codes)[j]? = some old := by
    rw [getElem?_burn, hold, Option.map_some, if_neg hnot]
  exact ⟨old, joined_old code hkept, hunused, htime⟩

/-! ### The one unused code -/

theorem Single.set {codes : List Code} {i : ℕ} {code next : Code} (hs : Single codes)
    (hi : codes[i]? = some code) (hnext : next.usedAt = none → code.usedAt = none) :
    Single (codes.set i next) :=
  one_moved hs fun hunused j other hj hother => hs i j code other hi hj (hnext hunused) hother

/-- A new code after an UPDATE that burned all there were. -/
theorem single_insert {codes : List Code} {now : ℕ} {picked : List ℕ} {next : Code}
    (hall : ∀ i ∈ unused codes, i ∈ picked) : Single (burn now picked codes ++ [next]) := by
  have hnone : ∀ (i : ℕ) (code : Code), (burn now picked codes)[i]? = some code →
      code.usedAt ≠ none := by
    intro i code hi hunused
    obtain ⟨old, hold, _, _, hkept⟩ := burn_cases hi
    obtain ⟨holdUnused, hnot⟩ := hkept hunused
    exact hnot (hall i (mem_unused_iff.mpr ⟨old, hold, holdUnused⟩))
  refine one_joined (fun i j code other hi _ hcode _ => absurd hcode (hnone i code hi)) ?_
  intro _ code hmem
  obtain ⟨i, hi⟩ := List.getElem?_of_mem hmem
  exact hnone i code hi

/-! ### Runs -/

/-- What the SELECT of a verifying call leads to. -/
theorem select_cases {setup : Setup} {s : State} {now : ℕ} {rawCode : String} {pick : Option ℕ}
    {u : List Code × Pc} (h : select setup s now rawCode pick = some u) :
    (∃ reason, u = (s.codes, .answered (some reason))) ∨ ∃ i code, pick = some i ∧
      s.codes[i]? = some code ∧ newest s.codes i = true ∧ u = (s.codes.set i { code with
          compared := code.compared +
            if (decideCode setup now rawCode code).compared then 1 else 0 },
        .committing now i code.attempts (decideCode setup now rawCode code)) := by
  cases pick with
  | none =>
    simp only [select] at h
    split at h
    · exact .inl ⟨_, (Option.some.inj h).symm⟩
    · cases h
  | some i =>
    obtain ⟨code, hcode, h⟩ := Option.bind_eq_some_iff.mp h
    split at h
    case isFalse => cases h
    case isTrue hnewest =>
      simp only at h
      split at h
      · exact .inl ⟨_, (Option.some.inj h).symm⟩
      · exact .inr ⟨i, code, rfl, hcode, hnewest, (Option.some.inj h).symm⟩

/-- A code that is compared has attempts left. -/
theorem attempts_of_compared {setup : Setup} {now : ℕ} {rawCode : String} {code : Code}
    (h : (decideCode setup now rawCode code).compared = true) :
    code.attempts + 1 ≤ setup.maxAttempts := by
  unfold decideCode at h
  split at h
  · cases h
  · split at h
    · cases h
    · omega

/-- Counted, one unused code at most, and what was found good is. -/
structure Kept (setup : Setup) (s : State) : Prop where
  counted : Counted setup s
  single : Single s.codes
  usable : Usable s

theorem kept_start (setup : Setup) : Kept setup start :=
  ⟨counted_start setup, by simp [Single, start], by simp [Usable, start]⟩

theorem step_kept {setup : Setup} (s : State) (a : Action) (t : State) (hs : Kept setup s)
    (hok : Alone s a) (h : step setup s a = some t) : Kept setup t := by
  obtain ⟨hcounted, hsingle, husable⟩ := hs
  cases a with
  | wait =>
    obtain rfl := Option.some.inj h
    refine ⟨⟨hcounted.capped, hcounted.settled, hcounted.inHand, hcounted.alone⟩, hsingle, ?_⟩
    intro v pc hv i hi
    obtain ⟨code, hcode, hunused, -⟩ := husable v pc hv i hi
    exact ⟨code, hcode, hunused, hok pc (List.mem_of_getElem? hv) i hi code hcode⟩
  | create =>
    obtain rfl := Option.some.inj h
    exact ⟨hcounted.join rfl, hsingle, husable.join rfl⟩
  | verify rawCode =>
    obtain rfl := Option.some.inj h
    exact ⟨hcounted.join (by split <;> rfl), hsingle, husable.join (by split <;> rfl)⟩
  | select v pick =>
    simp only [step] at h
    split at h
    case h_2 => cases h
    case h_1 now rawCode hv =>
      obtain ⟨u, hu, rfl⟩ := Option.map_eq_some_iff.mp h
      rcases select_cases hu with ⟨reason, rfl⟩ | ⟨i, code, rfl, hi, hnewest, rfl⟩
      · exact ⟨hcounted.move hv rfl rfl, hsingle,
          husable.move (fun _ _ _ _ _ code _ hcode hunused htime => ⟨code, hcode, hunused, htime⟩)
            nofun⟩
      · obtain ⟨hnobody, hbegan⟩ := hok
        have hnow := hbegan now (by simp [State.began, hv]) code hi
        exact ⟨hcounted.take hv rfl hi hnobody attempts_of_compared, hsingle.set hi id,
          husable.take hi hnewest hnow hnobody _⟩
  | insert v rawCode =>
    simp only [step] at h
    split at h
    case h_2 => cases h
    case h_1 startedAt picked hv =>
      obtain rfl := Option.some.inj h
      obtain ⟨hall, hnone⟩ := hok picked (by simp [State.burned, hv])
      exact ⟨hcounted.insert hv rfl rfl, single_insert hall, husable.insert hnone rfl⟩
  | advance v =>
    simp only [step] at h
    split at h
    case h_3 => cases h
    case h_1 startedAt picked hv =>
      split at h
      · cases h
      · obtain rfl := Option.some.inj h
        exact ⟨hcounted.move hv rfl rfl, hsingle,
          husable.move (fun _ _ _ _ _ code _ hcode hunused htime => ⟨code, hcode, hunused, htime⟩)
            nofun⟩
    case h_2 now i n reason hv =>
      split at h
      · cases h
      · obtain ⟨code, hi, rfl⟩ := Option.map_eq_some_iff.mp h
        refine ⟨hcounted.commit hv hi, hsingle.set hi fun hnone => ?_,
          husable.move (fun w other hw hne j old hj hold hunused htime => ?_) nofun⟩
        · rw [Code.written] at hnone
          split at hnone
          · exact hnone
          · cases hnone
        · -- nobody else has the code in its hands
          have hij : i ≠ j := by
            rintro rfl
            exact hne (hcounted.alone v w i _ _ hv hw rfl (code_of_found hj))
          exact ⟨old, (moved_other _ hij).trans hold, hunused, htime⟩

/-- What verifies the account is unused and in its time. -/
theorem Usable.valid {s : State} {v i : ℕ} {code : Code} (hs : Usable s)
    (hv : s.verifies v = some i) (hi : s.codes[i]? = some code) :
    code.usedAt = none ∧ s.now < code.expiresAt := by
  unfold State.verifies at hv
  split at hv
  case h_1 hcall =>
    obtain rfl := Option.some.inj hv
    obtain ⟨old, hold, hunused, htime⟩ := hs v _ hcall _ rfl
    obtain rfl := Option.some.inj (hi.symm.trans hold)
    exact ⟨hunused, htime⟩
  case h_2 => cases hv

/-- THE CONDITION: along any interleaving of creations and verifications in which a code is read
    while no other call has it in its hands and before it ends, nothing burns or ends a code between
    the SELECT that found it good and the COMMIT of that, and a code is replaced when the UPDATE
    burned all that are unused: no code is compared with more values than allowed, none that is used
    or expired verifies the account, and one at most is unused. -/
theorem bounded_run (setup : Setup) (as : List Action)
    (hok : Guarded (step setup) Alone start as) :
    EveryStep (step setup) (Bounded setup) start as := by
  refine everyStep_of_guarded step_kept (fun s a t hs hok h => ?_) (kept_start setup) hok
  have ht := step_kept s a t hs hok h
  refine ⟨ht.counted.capped, ?_, ht.single⟩
  rintro v i code rfl hv hi
  exact hs.usable.valid hv hi

/-- Codes hash to themselves, three attempts, ten ticks. -/
def plain : Setup := ⟨id, 3, 10⟩

/-- A second code is created while a wrong value for the first is between SELECT and COMMIT; the
    second verifies the account, and a value comes too late. -/
def replacedMeanwhile : List Action :=
  [.create, .advance 0, .insert 0 "123456", .verify "000000", .create, .select 1 (some 0), .wait,
    .advance 2, .insert 2 "654321", .verify "654321", .advance 1, .wait, .select 3 (some 1),
    .advance 3, .verify "654321"]

theorem one_after_another : EveryStep (step plain) (Bounded plain) start replacedMeanwhile ∧
    ∃ s, runFrom (step plain) start replacedMeanwhile = some s ∧
      s.verifiedAt = some 1 ∧ s.codes.map Code.compared = [1, 1] :=
  ⟨bounded_run plain _ (by decide +kernel), _, rfl, by decide +kernel⟩

/-- Four calls read the code before any of them writes its attempt. -/
def guesses : List Action :=
  [.create, .advance 0, .insert 0 "123456", .verify "1", .verify "2", .verify "3", .verify "4",
    .select 1 (some 0), .select 2 (some 0), .select 3 (some 0)]

/-- A code is found good, another is created, and then the first one's call commits. -/
def supplanted : List Action :=
  [.create, .advance 0, .insert 0 "123456", .verify "123456", .select 1 (some 0), .create,
    .advance 2, .insert 2 "654321"]

/-- Two codes are created at once. -/
def twoCreated : List Action :=
  [.create, .create, .advance 0, .advance 1, .insert 0 "123456"]

/-- The cap is passed, a used code verifies the account, and two codes are unused. -/
theorem unbounded_and_reused_and_doubled :
    ¬ EveryStep (step plain) (Bounded plain) start (guesses ++ [.select 4 (some 0)]) ∧
      ¬ EveryStep (step plain) (Bounded plain) start (supplanted ++ [.advance 1]) ∧
        ¬ EveryStep (step plain) (Bounded plain) start (twoCreated ++ [.insert 1 "654321"]) := by
  refine ⟨fun h => ?_, fun h => ?_, fun h => ?_⟩
  · have hfourth := EveryStep.at h (rfl : runFrom _ _ guesses = some _) rfl
    exact absurd (hfourth.attempts 0 _ rfl) (by decide +kernel)
  · have hlate := EveryStep.at h (rfl : runFrom _ _ supplanted = some _) rfl
    exact absurd (hlate.valid 1 0 _ rfl rfl rfl) (by decide +kernel)
  · have hboth := EveryStep.at h (rfl : runFrom _ _ twoCreated = some _) rfl
    exact absurd (hboth.single 0 1 _ _ rfl rfl rfl rfl) (by decide)

end LunaCore.Auth.Verification
