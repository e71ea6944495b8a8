import Hikyo.Dynamic.Orphans

/-!
# Active leases are swept at their expiry

`active_lease_due_at_expiry`: in every history in which no renewal fails, an active lease is due for
the worker at the latest one retry delay after its expiry, and at its expiry if no sweep of an
expired lease is put off.  `Scheduled` is the invariant on rows and sweeps.  A renewal that fails
returns the lease to active and parks it a year ahead, so that the expiry passes unnoticed
(`renewalWithdrawn_parks_active_lease`).
-/

namespace Hikyo.Dynamic

open Hikyo.Lib Function

variable {now : Nat} {s' : System}

variable {authority prompt : Bool} {target : LeaseState}
  {clock expiresAt id maxTTL provider readAt : Nat} {s : System}

def Stage.answer : Stage → Option Answer
  | .answered _ answer => some answer
  | .claimed | .intended | .calling .. => none

/-- No renewal is recorded as a failure, for want of authority or by a definite error of the
provider. -/
def RenewalsSucceed (s : System) : Action → Prop
  | .withdrawRenewal id readAt now =>
    (s.withdrawRenewal id readAt now).isSome → s.holdsClaim id now = false
  | .settleSweep id readAt now =>
    (s.settleSweep id readAt now).isSome → s.holdsClaim id now →
      ∀ sweep ∈ s.sweeps id, sweep.kind = .renew → sweep.stage.answer ≠ some .refused
  | _ => True

/-- No sweep of an expired lease is put off, whether its provider cannot be opened or
cannot be reached. -/
def SweepsReach (s : System) : Action → Prop
  | .retry id readAt now =>
    (s.retry id readAt now).isSome → s.holdsClaim id now →
      ∀ sweep ∈ s.sweeps id, sweep.kind ≠ .expire
  | .settleSweep id readAt now =>
    (s.settleSweep id readAt now).isSome → s.holdsClaim id now →
      ∀ sweep ∈ s.sweeps id, sweep.kind = .expire → sweep.stage.answer ≠ some .unreachable
  | _ => True

instance (s : System) (action : Action) : Decidable (RenewalsSucceed s action) := by
  unfold RenewalsSucceed
  split <;> infer_instance

instance (s : System) (action : Action) : Decidable (SweepsReach s action) := by
  unfold SweepsReach
  split <;> infer_instance

/-- What a transition of this kind takes for granted of the expiry of the row. -/
def Kind.Fits : Kind → Option Nat → Prop
  | .mint, expiresAt => expiresAt = none
  | .renew, expiresAt | .expire, expiresAt => expiresAt.isSome = true
  | .revoke, _ => True

def deadline (prompt : Bool) (clock expiresAt : Nat) : Nat :=
  if prompt then expiresAt else max expiresAt clock + dynamicRetryCap

theorem le_deadline (prompt : Bool) (clock expiresAt : Nat) :
    expiresAt ≤ deadline prompt clock expiresAt := by
  unfold deadline
  split <;> omega

theorem deadline_mono (prompt : Bool) {later : Nat} (expiresAt : Nat) (passed : clock ≤ later) :
    deadline prompt clock expiresAt ≤ deadline prompt later expiresAt := by
  unfold deadline
  split <;> omega

structure Lease.Sound (prompt : Bool) (clock : Nat) (row : Lease) : Prop where
  minting : row.state = .minting → row.expiresAt = none ∧ row.latestEffectKind.getD .mint = .mint
  renewing : row.state = .renewing → row.expiresAt.isSome = true
  unknown : row.state = .unknown → (row.latestEffectKind.getD .mint).Fits row.expiresAt
  active : row.state = .active → ∃ expiresAt, row.expiresAt = some expiresAt ∧
    row.nextAttemptAt ≤ deadline prompt clock expiresAt

structure Sweep.Suits (sweep : Sweep) (row : Lease) : Prop where
  derived : row.deriveKind = some sweep.kind
  intended : sweep.stage ≠ .claimed → row.latestEffectKind = some sweep.kind

structure Scheduled (prompt : Bool) (s : System) : Prop where
  lease_known : ∀ id row, s.leases id = some row → id < s.nextLease
  sweep_known : ∀ i sweep, s.sweeps i = some sweep → i < s.nextSweep ∧ sweep.lease < s.nextLease
  token_le : ∀ i sweep row, s.sweeps i = some sweep → s.leases sweep.lease = some row →
    sweep.token ≤ row.claimToken
  unique : ∀ i j sweep other, s.sweeps i = some sweep → s.sweeps j = some other →
    sweep.lease = other.lease →
    sweep.token = other.token → i = j
  suits : ∀ i sweep row, s.sweeps i = some sweep → s.leases sweep.lease = some row →
    row.claimToken = sweep.token →
    row.term.isSome = true → sweep.Suits row
  sound : ∀ id row, s.leases id = some row → row.Sound prompt s.clock

theorem scheduled_start (prompt : Bool) (org : Nat → Nat) :
    Scheduled prompt (System.start org) := by
  constructor <;> simp [System.start]

theorem Lease.Sound.fits_of_deriveKind {row : Lease} (sound : row.Sound prompt clock)
    {kind : Kind} (derived : row.deriveKind = some kind) :
    kind.Fits row.expiresAt ∧ (row.state = .active → kind = .expire) := by
  unfold Lease.deriveKind at derived
  cases state : row.state with (rw [state] at derived; cases derived)
  | minting =>
    exact ⟨(sound.minting state).1, nofun⟩
  | active =>
    obtain ⟨_, expiry, -⟩ := sound.active state
    exact ⟨by simp [Kind.Fits, expiry], fun _ => rfl⟩
  | renewing =>
    exact ⟨sound.renewing state, nofun⟩
  | revoking =>
    exact ⟨trivial, nofun⟩
  | unknown =>
    exact ⟨sound.unknown state, nofun⟩

section Rows
section
variable (scheduled : Scheduled prompt s)
include scheduled

theorem Scheduled.putLease {row : Lease} (known : id < s.nextLease)
    (token : ∀ i sweep, s.sweeps i = some sweep → sweep.lease = id → sweep.token ≤ row.claimToken)
    (suits : ∀ i sweep, s.sweeps i = some sweep → sweep.lease = id → row.claimToken = sweep.token →
      row.term.isSome = true → sweep.Suits row)
    (sound : row.Sound prompt s.clock) : Scheduled prompt (s.putLease id row) := by
  refine { scheduled with lease_known := ?_, token_le := ?_, suits := ?_, sound := ?_ }
  · intro i r found
    rcases update_eq_some found with ⟨rfl, -⟩ | ⟨-, old⟩
    · exact known
    · exact scheduled.lease_known i r old
  · intro i sweep r isSweep found
    rcases update_eq_some found with ⟨own, rfl⟩ | ⟨-, old⟩
    · exact token i sweep isSweep own
    · exact scheduled.token_le i sweep r isSweep old
  · intro i sweep r isSweep found
    rcases update_eq_some found with ⟨own, rfl⟩ | ⟨-, old⟩
    · exact suits i sweep isSweep own
    · exact scheduled.suits i sweep r isSweep old
  · intro i r found
    rcases update_eq_some found with ⟨-, rfl⟩ | ⟨-, old⟩
    · exact sound
    · exact scheduled.sound i r old

theorem Scheduled.release (row : Lease) {written : Lease}
    (isRow : s.leases id = some row) (token : written.claimToken = row.claimToken)
    (free : written.term = none) (sound : written.Sound prompt s.clock) :
    Scheduled prompt (s.putLease id written) := by
  refine scheduled.putLease (scheduled.lease_known id row isRow) (fun i sweep isSweep own => ?_)
    (fun _ _ _ _ _ under => ?_) sound
  · rw [token]
    exact scheduled.token_le i sweep row isSweep (own ▸ isRow)
  · rw [free] at under
    cases under

theorem Scheduled.endSweep (id : Nat) : Scheduled prompt (s.putSweep id none) := by
  refine { scheduled with sweep_known := ?_, token_le := ?_, unique := ?_, suits := ?_ }
  · exact fun i sweep found => scheduled.sweep_known i sweep (update_none_eq_some found)
  · exact fun i sweep row found => scheduled.token_le i sweep row (update_none_eq_some found)
  · exact fun i j sweep other found found' =>
      scheduled.unique i j sweep other (update_none_eq_some found) (update_none_eq_some found')
  · exact fun i sweep row found => scheduled.suits i sweep row (update_none_eq_some found)

theorem Scheduled.putSweep {sweep : Sweep} (known : id < s.nextSweep ∧ sweep.lease < s.nextLease)
    (token : ∀ row, s.leases sweep.lease = some row → sweep.token ≤ row.claimToken)
    (unique : ∀ i other, s.sweeps i = some other → other.lease = sweep.lease →
      other.token = sweep.token → i = id)
    (suits : ∀ row, s.leases sweep.lease = some row → row.claimToken = sweep.token →
      row.term.isSome = true →
      sweep.Suits row) : Scheduled prompt (s.putSweep id (some sweep)) := by
  refine { scheduled with sweep_known := ?_, token_le := ?_, unique := ?_, suits := ?_ }
  · intro i x found
    rcases update_eq_some found with ⟨rfl, rfl⟩ | ⟨-, old⟩
    · exact known
    · exact scheduled.sweep_known i x old
  · intro i x row found
    rcases update_eq_some found with ⟨-, rfl⟩ | ⟨-, old⟩
    · exact token row
    · exact scheduled.token_le i x row old
  · intro i j x y found found' sameLease sameToken
    rcases update_eq_some found with ⟨rfl, rfl⟩ | ⟨-, old⟩
    · rcases update_eq_some found' with ⟨rfl, -⟩ | ⟨-, old'⟩
      · rfl
      · exact (unique j y old' sameLease.symm sameToken.symm).symm
    rcases update_eq_some found' with ⟨rfl, rfl⟩ | ⟨-, old'⟩
    · exact unique i x old sameLease sameToken
    · exact scheduled.unique i j x y old old' sameLease sameToken
  · intro i x row found
    rcases update_eq_some found with ⟨-, rfl⟩ | ⟨-, old⟩
    · exact suits row
    · exact scheduled.suits i x row old

theorem Scheduled.advanceSweep {sweep : Sweep} {stage : Stage} (isSweep : s.sweeps id = some sweep)
    (intended : ∀ row, s.leases sweep.lease = some row → sweep.Suits row →
      row.latestEffectKind = some sweep.kind) :
    Scheduled prompt (s.putSweep id (some { sweep with stage })) := by
  refine scheduled.putSweep (scheduled.sweep_known id sweep isSweep)
    (fun row => scheduled.token_le id sweep row isSweep)
    (fun i other found sameLease sameToken =>
      scheduled.unique i id other sweep found isSweep sameLease sameToken)
    fun row isRow current under => ?_
  have suits := scheduled.suits id sweep row isSweep isRow current under
  exact ⟨suits.derived, fun _ => intended row isRow suits⟩

end

end Rows

section Requests
theorem Scheduled.mint (scheduled : Scheduled prompt s)
    (taken : s.mint provider maxTTL now = some s') : Scheduled prompt s' := by
  obtain ⟨-, rfl⟩ := mint_eq_some taken
  have numbered : Scheduled prompt { s with nextLease := s.nextLease + 1 } :=
    { scheduled with
      lease_known := fun i row found => Nat.lt_succ_of_lt (scheduled.lease_known i row found)
      sweep_known :=
        fun i sweep found => (scheduled.sweep_known i sweep found).imp_right Nat.lt_succ_of_lt }
  have unswept : ∀ i sweep, s.sweeps i = some sweep → sweep.lease ≠ s.nextLease :=
    fun i sweep found =>
    Nat.ne_of_lt (scheduled.sweep_known i sweep found).2
  have created :
      Scheduled prompt (({ s with nextLease := s.nextLease + 1 } : System).putLease s.nextLease
      (createLease (s.providers provider).org provider maxTTL now)) :=
    numbered.putLease (Nat.lt_succ_self _)
      (fun i sweep found new => absurd new (unswept i sweep found))
      (fun i sweep found new => absurd new (unswept i sweep found)) ⟨fun _ => ⟨rfl, rfl⟩,
        nofun, nofun, nofun⟩
  exact { created with }

theorem finishMint_sound {row minted : Lease} {answer : Answer} (sound : row.Sound prompt clock)
    (finished : row.finishMint (finishState answer authority).1 expiresAt now = some minted) :
    minted.Sound prompt clock := by
  obtain ⟨minting, -, rfl⟩ := finishMint_eq_some finished
  obtain ⟨-, latest⟩ := sound.minting minting
  have cases_of : (finishState answer authority).1 ≠ .minting ∧ (finishState answer authority).1 ≠
      .renewing := by
    cases answer <;> cases authority <;> decide
  refine ⟨fun state => absurd state cases_of.1, fun state => absurd state cases_of.2,
    fun state => ?_, fun state => ?_⟩
  · change (finishState answer authority).1 = .unknown at state
    rw [latest, state]
    rfl
  change (finishState answer authority).1 = .active at state
  rw [state]
  exact ⟨expiresAt, rfl, le_deadline prompt clock expiresAt⟩

theorem Scheduled.settleMint (scheduled : Scheduled prompt s)
    (taken : s.settleMint id authority now = some s') : Scheduled prompt s' := by
  obtain ⟨_, _, -, -, rfl | ⟨row, minted, isRow, finished, rfl⟩⟩ := settleMint_eq_some taken
  · exact { scheduled with }
  have sound : minted.Sound prompt s.clock :=
    finishMint_sound (scheduled.sound id row isRow) finished
  obtain ⟨-, -, isMinted⟩ := finishMint_eq_some finished
  have released : Scheduled prompt (s.putLease id minted) :=
    scheduled.release row isRow (by rw [isMinted]) (by rw [isMinted]) sound
  exact { released with }

theorem enqueueTransition_sound {row moved : Lease}
    (sound : row.Sound prompt clock)
    (entered : row.enqueueTransition target maxTTL now = some moved) :
    moved.Sound prompt clock := by
  obtain ⟨may, rfl⟩ := enqueueTransition_eq_some entered
  refine ⟨?_, ?_, ?_, ?_⟩
  · rintro rfl
    cases may
  · rintro rfl
    obtain ⟨_, expiry, -⟩ := sound.active (of_decide_eq_true may)
    simp [expiry]
  · rintro rfl
    exact sound.unknown (of_decide_eq_true may)
  · rintro rfl
    cases may

theorem Scheduled.enqueueLeaseTransition (scheduled : Scheduled prompt s)
    (taken : s.enqueueLeaseTransition id target maxTTL now = some s') : Scheduled prompt s' := by
  obtain ⟨row, _, isRow, entered, rfl⟩ := enqueueLeaseTransition_eq_some taken
  have sound := enqueueTransition_sound (scheduled.sound id row isRow) entered
  obtain ⟨-, rfl⟩ := enqueueTransition_eq_some entered
  exact scheduled.release row isRow rfl rfl sound

theorem Scheduled.deleteProvider {revokeAll : Bool} (scheduled : Scheduled prompt s)
    (taken : s.deleteProvider provider revokeAll now = some s') : Scheduled prompt s' := by
  rw [deleteProvider_eq_some taken]
  -- a row is as it was, or is released for its revocation
  have cases_of : ∀ {i row}, (s.leases i).map (·.revokedWith provider now) = some row →
      s.leases i = some row ∨ ∃ old, s.leases i = some old ∧ row.claimToken = old.claimToken ∧
        row.term = none ∧
        row.Sound prompt s.clock := by
    intro i row found
    obtain ⟨old, wasThere, rfl⟩ := Option.map_eq_some_iff.mp found
    rcases revokedWith_cases old provider now with same | entered
    · exact .inl (same.symm ▸ wasThere)
    have sound := enqueueTransition_sound (scheduled.sound i old wasThere) entered
    obtain ⟨-, moved⟩ := enqueueTransition_eq_some entered
    exact .inr ⟨old, wasThere, by rw [moved], by rw [moved], sound⟩
  refine { scheduled with lease_known := ?_, token_le := ?_, suits := ?_, sound := ?_ }
  · intro i row found
    obtain ⟨old, wasThere, -⟩ := Option.map_eq_some_iff.mp found
    exact scheduled.lease_known i old wasThere
  · intro i sweep row isSweep found
    rcases cases_of found with same | ⟨old, wasThere, token, -⟩
    · exact scheduled.token_le i sweep row isSweep same
    · exact token ▸ scheduled.token_le i sweep old isSweep wasThere
  · intro i sweep row isSweep found current under
    rcases cases_of found with same | ⟨_, -, -, free, -⟩
    · exact scheduled.suits i sweep row isSweep same current under
    · rw [free] at under
      cases under
  · intro i row found
    rcases cases_of found with same | ⟨-, -, -, -, sound⟩
    · exact scheduled.sound i row same
    · exact sound

end Requests

section Sweeps
theorem Scheduled.claimDueLease {worker : Nat} (scheduled : Scheduled prompt s)
    (taken : s.claimDueLease worker id now = some s') : Scheduled prompt s' := by
  obtain ⟨row, _, isRow, derived, rfl⟩ := claimDueLease_eq_some taken
  have known : id < s.nextLease := scheduled.lease_known id row isRow
  have older : ∀ i sweep, s.sweeps i = some sweep → sweep.lease = id →
      sweep.token < row.claimToken + 1 :=
    fun i sweep found same => Nat.lt_succ_of_le
      (scheduled.token_le i sweep row found (same ▸ isRow))
  have sound := scheduled.sound id row isRow
  have numbered : Scheduled prompt { s with nextSweep := s.nextSweep + 1 } :=
    { scheduled with
      sweep_known :=
        fun i sweep found => (scheduled.sweep_known i sweep found).imp_left Nat.lt_succ_of_lt }
  have claimed : Scheduled prompt (({ s with nextSweep := s.nextSweep + 1 } : System).putLease id
    (row.claimed worker now)) :=
    numbered.putLease known (fun i sweep found same => Nat.le_of_lt (older i sweep found same))
      (fun i sweep found same current =>
        absurd current.symm (Nat.ne_of_lt (older i sweep found same)))
      ⟨sound.minting, sound.renewing, sound.unknown, sound.active⟩
  have isClaimed : ∀ r, (s.putLease id (row.claimed worker now)).leases id = some r →
      r = row.claimed worker now :=
    fun r found => Option.some.inj (found.symm.trans (update_self ..))
  refine claimed.putSweep ⟨Nat.lt_succ_self _, known⟩ (fun r found => ?_)
    (fun i other found same token => ?_)
    fun r found _ _ => ?_
  · rw [isClaimed r found]
    exact Nat.le.refl
  · exact absurd token (Nat.ne_of_lt (older i other found same))
  · rw [isClaimed r found]
    exact ⟨derived, fun further => absurd rfl further⟩

theorem retry_le_deadline (attempt : Nat) (past : readAt ≤ clock) :
    readAt + dynamicRetryDelay attempt ≤ deadline false clock expiresAt := by
  have short := dynamicRetryDelay_le attempt
  have base : readAt ≤ max expiresAt clock := Nat.le_trans past (Nat.le_max_right ..)
  exact Nat.add_le_add base short

theorem Scheduled.suits_of_heldBy {sweep : Sweep} {row : Lease} (scheduled : Scheduled prompt s)
    (isSweep : s.sweeps id = some sweep) (isRow : s.leases sweep.lease = some row)
    (held : row.heldBy sweep now = true) :
    sweep.Suits row ∧ sweep.kind.Fits row.expiresAt ∧
      (row.state = .active → sweep.kind = .expire) := by
  obtain ⟨current, under⟩ := heldBy_eq_true held
  have suits := scheduled.suits id sweep row isSweep isRow current under
  exact ⟨suits, (scheduled.sound sweep.lease row isRow).fits_of_deriveKind suits.derived⟩

theorem Scheduled.retry (scheduled : Scheduled prompt s)
    (reach : prompt = true → SweepsReach s (.retry id readAt now))
    (taken : s.retry id readAt now = some s') :
    Scheduled prompt s' := by
  obtain ⟨sweep, row, isSweep, isRow, past, rfl | ⟨held, rfl⟩⟩ := retry_eq_some taken
  · exact scheduled.endSweep id
  obtain ⟨-, -, isExpiry⟩ := scheduled.suits_of_heldBy isSweep isRow held
  have sound := scheduled.sound sweep.lease row isRow
  refine (scheduled.endSweep id).release row isRow rfl rfl
    ⟨sound.minting, sound.renewing, sound.unknown, fun active => ?_⟩
  obtain ⟨expiresAt, expiry, -⟩ := sound.active active
  refine ⟨expiresAt, expiry, ?_⟩
  cases prompt with
  | true =>
    have holds := holdsClaim_of_heldBy isSweep isRow held
    exact absurd (isExpiry active) (reach rfl (Option.isSome_of_eq_some taken) holds sweep isSweep)
  | false => exact retry_le_deadline sweep.attempt past

theorem Scheduled.recordIntent (scheduled : Scheduled prompt s)
    (taken : s.recordIntent id now = some s') :
    Scheduled prompt s' := by
  obtain ⟨sweep, row, isSweep, isRow, rfl | ⟨held, rfl⟩⟩ := recordIntent_eq_some taken
  · exact scheduled.endSweep id
  obtain ⟨current, -⟩ := heldBy_eq_true held
  obtain ⟨⟨derived, -⟩, fits, -⟩ := scheduled.suits_of_heldBy isSweep isRow held
  have sound := scheduled.sound sweep.lease row isRow
  have recorded :
      Scheduled prompt
        (s.putLease sweep.lease { row with latestEffectKind := some sweep.kind }) := by
    refine scheduled.putLease (scheduled.lease_known _ row isRow)
      (fun i other found own => scheduled.token_le i other row found (own ▸ isRow))
      (fun i other found own token _ => ?_)
      ⟨fun minting => ⟨(sound.minting minting).1, ?_⟩, sound.renewing, fun _ => fits, sound.active⟩
    · cases scheduled.unique i id other sweep found isSweep own (token.symm.trans current)
      cases isSweep.symm.trans found
      refine ⟨?_, fun _ => rfl⟩
      unfold Lease.deriveKind at derived ⊢
      cases state : row.state <;> simp_all
    · unfold Lease.deriveKind at derived
      simp_all
  refine recorded.advanceSweep isSweep fun r found _ => ?_
  cases found.symm.trans (update_self ..)
  rfl

section Settle
variable {row : Lease} {nextAttemptAt : Nat} {kind : Kind}

theorem settle_terminal_sound {terminal : LeaseState} (isTerminal : terminal.Terminal) :
    (row.settle (.recordOutcome terminal none none) nextAttemptAt).Sound prompt clock := by
  rcases isTerminal with rfl | rfl | rfl <;> exact ⟨nofun, nofun, nofun, nofun⟩

theorem settle_enterUnknown_sound (fits : kind.Fits row.expiresAt)
    (latest : row.latestEffectKind = some kind) :
    (row.settle .enterUnknown nextAttemptAt).Sound prompt clock := by
  refine ⟨nofun, nofun, fun _ => ?_, nofun⟩
  change (row.latestEffectKind.getD .mint).Fits row.expiresAt
  rw [latest]
  exact fits

end Settle

/-- Only a failed renewal and a put-off sweep leave the next attempt off the expiry. -/
theorem settle_sound {row : Lease} {newExpiry attempt : Nat} {kind : Kind} {issuedAt : Option Nat}
    {answer : Answer} (fits : kind.Fits row.expiresAt) (latest : row.latestEffectKind = some kind)
    (renewed : kind = .renew → answer ≠ .refused)
    (reached : prompt = true → kind = .expire → answer ≠ .unreachable) (past : readAt ≤ clock) :
    (row.settle (settlement kind issuedAt newExpiry answer)
      ((settlement kind issuedAt newExpiry answer).nextAttemptAt attempt readAt)).Sound
        prompt clock := by
  cases answer with
  | success =>
    cases kind with
    | renew =>
        exact ⟨nofun, nofun, nofun, fun _ => ⟨newExpiry, rfl, le_deadline prompt clock newExpiry⟩⟩
    | revoke => exact settle_terminal_sound (.inl rfl)
    | expire => exact settle_terminal_sound (.inr (.inl rfl))
    | mint => exact settle_terminal_sound (.inr (.inr rfl))
  | unreachable =>
    cases kind with
    | renew => exact ⟨nofun, fun _ => fits, nofun, nofun⟩
    | revoke => exact ⟨nofun, nofun, nofun, nofun⟩
    | expire =>
      refine ⟨nofun, nofun, nofun, fun _ => ?_⟩
      obtain ⟨expiresAt, expiry⟩ := Option.isSome_iff_exists.mp fits
      refine ⟨expiresAt, expiry, ?_⟩
      cases prompt with
      | true => exact absurd rfl (reached rfl rfl)
      | false => exact retry_le_deadline attempt past
    | mint =>
      refine ⟨fun _ => ⟨fits, ?_⟩, nofun, nofun, nofun⟩
      change row.latestEffectKind.getD .mint = .mint
      rw [latest]
      rfl
  | ambiguous => cases kind <;> exact settle_enterUnknown_sound fits latest
  | refused =>
    cases kind with
    | renew => exact absurd rfl (renewed rfl)
    | revoke | expire | mint => exact settle_enterUnknown_sound fits latest

theorem Scheduled.settleSweep (scheduled : Scheduled prompt s)
    (succeed : RenewalsSucceed s (.settleSweep id readAt now))
    (reach : prompt = true → SweepsReach s (.settleSweep id readAt now))
    (taken : s.settleSweep id readAt now = some s') : Scheduled prompt s' := by
  obtain ⟨sweep, _, answer, isSweep, stage, settled⟩ := settleSweep_eq_some taken
  obtain ⟨row, isRow, past, rfl | ⟨held, rfl⟩⟩ := settle_eq_some settled
  · exact scheduled.endSweep id
  obtain ⟨suits, fits, -⟩ := scheduled.suits_of_heldBy isSweep isRow held
  have answered : sweep.stage.answer = some answer := by
    rw [stage]
    rfl
  have latest : row.latestEffectKind = some sweep.kind := suits.intended (by simp [stage])
  have settles := Option.isSome_of_eq_some taken
  have holds := holdsClaim_of_heldBy isSweep isRow held
  refine (scheduled.endSweep id).release row isRow rfl rfl (settle_sound fits latest ?_ ?_ past)
  · rintro isRenewal rfl
    exact succeed settles holds sweep isSweep isRenewal answered
  · rintro isPrompt isExpiry rfl
    exact reach isPrompt settles holds sweep isSweep isExpiry answered

end Sweeps

theorem Scheduled.step {action : Action} (scheduled : Scheduled prompt s)
    (succeed : RenewalsSucceed s action) (reach : prompt = true → SweepsReach s action)
    (taken : Dynamic.step s action = some s') : Scheduled prompt s' := by
  cases action with
  | advance =>
    cases taken
    refine { scheduled with sound := fun id row found => ?_ }
    have sound := scheduled.sound id row found
    refine ⟨sound.minting, sound.renewing, sound.unknown, fun active => ?_⟩
    obtain ⟨expiresAt, expiry, onTime⟩ := sound.active active
    exact ⟨expiresAt, expiry,
      Nat.le_trans onTime (deadline_mono prompt expiresAt (Nat.le_add_right ..))⟩
  | mint => exact scheduled.mint taken
  | callCreateRole =>
    obtain ⟨_, -, rfl⟩ := callCreateRole_eq_some taken
    exact { scheduled with }
  | answerMint =>
    obtain ⟨call, _, -, -, rfl⟩ := answerMint_eq_some taken
    exact { scheduled with }
  | settleMint => exact scheduled.settleMint taken
  | abandonMint =>
    cases taken
    exact { scheduled with }
  | renewLease | revokeLease | settleLease => exact scheduled.enqueueLeaseTransition taken
  | deleteProvider => exact scheduled.deleteProvider taken
  | claim => exact scheduled.claimDueLease taken
  | retry => exact scheduled.retry reach taken
  | recordIntent => exact scheduled.recordIntent taken
  | withdrawRenewal id =>
    obtain ⟨sweep, isSweep, -, -, settled⟩ := withdrawRenewal_eq_some taken
    obtain ⟨row, isRow, -, rfl | ⟨held, -⟩⟩ := settle_eq_some settled
    · exact scheduled.endSweep id
    · cases (succeed (Option.isSome_of_eq_some taken)).symm.trans
        (holdsClaim_of_heldBy isSweep isRow held)
  | callProvider =>
    obtain ⟨sweep, isSweep, stage, rfl⟩ := callProvider_eq_some taken
    have sent : Scheduled prompt (s.send sweep.lease sweep.kind.statement) := { scheduled with }
    exact sent.advanceSweep isSweep fun _ _ suits => suits.intended (by simp [stage])
  | answerSweep =>
    obtain ⟨_, call, _, isSweep, stage, -, rfl⟩ := answerSweep_eq_some taken
    exact scheduled.advanceSweep isSweep fun _ _ suits => suits.intended (by simp [stage])
  | settleSweep => exact scheduled.settleSweep succeed reach taken
  | crash id =>
    cases taken
    exact scheduled.endSweep id
  | execute =>
    obtain ⟨call, -, -, rfl⟩ := execute_eq_some taken
    exact { scheduled with }
  | discard =>
    obtain ⟨_, -, -, rfl⟩ := discard_eq_some taken
    exact { scheduled with }

theorem due_of_active {row : Lease} (active : row.state = .active)
    (expiry : row.expiresAt = some expiresAt)
    (onTime : row.nextAttemptAt ≤ deadline prompt clock expiresAt)
    (late : deadline prompt clock expiresAt ≤ now) : row.due now = true := by
  have expired : expiresAt ≤ now := Nat.le_trans (le_deadline prompt clock expiresAt) late
  have attempt : row.nextAttemptAt ≤ now := Nat.le_trans onTime late
  simp [Lease.due, active, expiry, expired, attempt]

/-- Where no renewal fails an active lease is due one retry delay after its expiry; where no sweep
is put off, at its expiry. -/
theorem active_lease_due_at_expiry (org : Nat → Nat) (actions : List Action) :
    (AllowedFrom step RenewalsSucceed (System.start org) actions →
      ∀ id row, (runFrom step (System.start org) actions).leases id = some row →
        row.state = .active →
        ∃ expiresAt, row.expiresAt = some expiresAt ∧
          row.nextAttemptAt ≤ max expiresAt (runFrom step (System.start org) actions).clock +
            dynamicRetryCap) ∧
    (AllowedFrom step (fun s action => RenewalsSucceed s action ∧ SweepsReach s action)
      (System.start org) actions →
      ∀ id row, (runFrom step (System.start org) actions).leases id = some row →
        row.state = .active →
        ∃ expiresAt, row.expiresAt = some expiresAt ∧ row.nextAttemptAt ≤ expiresAt ∧
          ∀ now, expiresAt ≤ now → row.due now = true) := by
  constructor
  · intro succeed id row found active
    have scheduled : Scheduled false (runFrom step (System.start org) actions) :=
      runFrom_invariant_of_allowed step RenewalsSucceed (Scheduled false)
        (fun s action s' scheduled succeed taken => scheduled.step succeed nofun taken) actions _
        (scheduled_start false org) succeed
    exact (scheduled.sound id row found).active active
  · intro allowed id row found active
    have scheduled : Scheduled true (runFrom step (System.start org) actions) :=
      runFrom_invariant_of_allowed step _ (Scheduled true)
        (fun s action s' scheduled met taken => scheduled.step met.1 (fun _ => met.2) taken) actions
          _
        (scheduled_start true org) allowed
    obtain ⟨expiresAt, expiry, onTime⟩ := (scheduled.sound id row found).active active
    exact ⟨expiresAt, expiry, onTime, fun now late => due_of_active active expiry onTime late⟩

def mintedAndRenewed : List Action :=
  [.mint 0 3600 0, .callCreateRole 0 0, .execute 0, .answerMint 0 .success,
    .settleMint 0 true 0, .advance 60,
    .renewLease 0 0 60, .claim 7 0 60, .recordIntent 0 60, .callProvider 0 60, .execute 1,
    .answerSweep 0 .success,
    .settleSweep 0 60 60]

theorem active_lease_due_at_expiry_renewed :
    ∃ row, (runFrom step (System.start fun _ => 0) mintedAndRenewed).leases 0 = some row ∧
      row.nextAttemptAt = 3660 ∧ row.due 3660 = true := by
  have renewed : ((runFrom step (System.start fun _ => 0) mintedAndRenewed).leases 0).map
      (fun row => (row.state, row.expiresAt, row.nextAttemptAt)) =
        some (.active, some 3660, 3660) := by
    decide +kernel
  obtain ⟨row, found, fields⟩ := Option.map_eq_some_iff.mp renewed
  simp only [Prod.mk.injEq] at fields
  obtain ⟨active, isExpiry, next⟩ := fields
  obtain ⟨_, expiry, -, due⟩ :=
    (active_lease_due_at_expiry (fun _ => 0) mintedAndRenewed).2 (by decide +kernel) 0
      row found active
  cases isExpiry.symm.trans expiry
  exact ⟨row, found, next, due 3660 Nat.le.refl⟩

/-- The authority to renew is withdrawn between the request and the sweep. -/
def renewalWithdrawn : List Action :=
  [.mint 0 3600 0, .callCreateRole 0 0, .execute 0, .answerMint 0 .success, .settleMint 0 true 0,
    .renewLease 0 0 0, .claim 7 0 0, .recordIntent 0 0, .withdrawRenewal 0 0 0]

/-- The first sweep after the expiry is two hours late and does not reach the provider. -/
def sweepPutOff : List Action :=
  [.mint 0 3600 0, .callCreateRole 0 0, .execute 0, .answerMint 0 .success, .settleMint 0 true 0,
    .advance 10800,
    .claim 7 0 10800, .recordIntent 0 10800, .callProvider 0 10800, .discard 1,
    .answerSweep 0 .unreachable,
    .settleSweep 0 10800 10800]

/-- After the failed renewal the lease is active and out of reach of the sweeps for a year. -/
theorem renewalWithdrawn_parks_active_lease :
    ((runFrom step (System.start fun _ => 0) renewalWithdrawn).leases 0).map
        (fun row => (row.state, row.expiresAt, row.nextAttemptAt)) =
        some (.active, some 3600, 31536000) ∧
      ((runFrom step (System.start fun _ => 0) sweepPutOff).leases 0).map
        (fun row => (row.state, row.expiresAt, row.nextAttemptAt)) =
        some (.active, some 3600, 10830) ∧
      3600 + dynamicRetryCap < 10830 := by
  decide +kernel

end Hikyo.Dynamic
