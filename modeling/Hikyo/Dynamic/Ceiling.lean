import Hikyo.Dynamic.Orphans

/-!
# The ceiling of a lease

A mint sends the provider an end of validity, and so does every renewal that a sweep carries out.
`validity_within_ceilings` bounds each of them by the smallest ceiling asked for so far, in every
history in which no renewal asks for more than the row has and a sweep extends a role only while it
holds its claim.  Under that discipline `Aligned` says that the ceiling which is sent is the one of
the row, and `Bounded` that the one of the row is within all that were asked for.  Both halves of
the discipline are needed: a renewal overwrites the ceiling of the row, and a sweep that has lost
its claim sends the one it read (`renewal_raises_ceiling`).
-/

namespace Hikyo.Dynamic

open Hikyo.Lib List Function

variable {action : Action} {written : Lease} {maxTTL : Nat}

structure Sent where
  lease : Nat
  readAt : Nat
  ceiling : Nat
deriving DecidableEq

def Sent.validUntil (sent : Sent) : Nat := sent.readAt + sent.ceiling

def System.sends (s : System) : Action → Option Sent
  | .callCreateRole id now =>
    match s.mints id with
    | some (.recorded maxTTL) => if s.clock < now then none else some ⟨id, now, maxTTL⟩
    | _ => none
  | .callProvider id now =>
    match s.sweeps id with
    | some sweep =>
      if s.clock < now ∨ sweep.stage ≠ .intended ∨ sweep.kind ≠ .renew then none
      else some ⟨sweep.lease, now, sweep.maxTTL⟩
    | none => none
  | _ => none

def System.asks (s : System) (id : Nat) : Action → List Nat
  | .mint _ maxTTL _ => if id = s.nextLease then [maxTTL] else []
  | .renewLease lease maxTTL _ => if id = lease ∧ 0 < maxTTL then [maxTTL] else []
  | _ => []

def ceilings (id : Nat) : System → List Action → List Nat
  | _, [] => []
  | s, action :: rest =>
    (if (step s action).isSome then s.asks id action else []) ++
      ceilings id (next step s action) rest

def System.ceiling (s : System) (id : Nat) : Option Nat := (s.leases id).map (·.maxTTL)

/-- No renewal that is accepted asks for more than the present ceiling of the row. -/
def Lowers (s : System) : Action → Prop
  | .renewLease lease maxTTL now =>
    (step s (.renewLease lease maxTTL now)).isSome → ∀ present ∈ s.ceiling lease, maxTTL ≤ present
  | _ => True

/-- A sweep extends a role only while it holds its claim. -/
def ExtendsWhileHeld (s : System) : Action → Prop
  | .callProvider id now => (s.sends (.callProvider id now)).isSome → s.holdsClaim id now
  | _ => True

def Tightens (s : System) (action : Action) : Prop := Lowers s action ∧ ExtendsWhileHeld s action

instance (s : System) (action : Action) : Decidable (Lowers s action) := by
  unfold Lowers
  split <;> infer_instance

instance (s : System) (action : Action) : Decidable (ExtendsWhileHeld s action) := by
  unfold ExtendsWhileHeld
  split <;> infer_instance

instance (s : System) (action : Action) : Decidable (Tightens s action) := by
  unfold Tightens
  infer_instance

section Steps
variable {s s' : System} {id now : Nat}

theorem ceiling_putLease (ceiling : written.maxTTL = maxTTL) :
    (s.putLease id written).ceiling = update s.ceiling id (some maxTTL) := by
  funext x
  by_cases own : x = id
  · rw [own, update_self, ← ceiling]
    exact congrArg _ (update_self ..)
  · rw [update_of_ne own]
    exact congrArg _ (update_of_ne own ..)

theorem ceiling_rewritten {row : Lease} (isRow : s.leases id = some row)
    (same : written.maxTTL = row.maxTTL) :
    (s.putLease id written).ceiling = s.ceiling := by
  rw [ceiling_putLease same, Function.update_eq_self_iff]
  simp [System.ceiling, isRow]

theorem ceiling_enqueue {target : LeaseState}
    (taken : s.enqueueLeaseTransition id target maxTTL now = some s') :
    s'.nextLease = s.nextLease ∧ (s.ceiling id).isSome ∧
      s'.ceiling = if 0 < maxTTL then update s.ceiling id (some maxTTL) else s.ceiling := by
  obtain ⟨row, moved, isRow, entered, rfl⟩ := enqueueLeaseTransition_eq_some taken
  obtain ⟨-, rfl⟩ := enqueueTransition_eq_some entered
  refine ⟨rfl, by simp [System.ceiling, isRow], ?_⟩
  split
  · exact ceiling_putLease rfl
  · exact ceiling_rewritten isRow rfl

theorem ceiling_settle {sweep : Sweep} {settlement : Settlement} {readAt : Nat}
    (taken : s.settle id sweep settlement readAt now = some s') :
    s'.nextLease = s.nextLease ∧ s'.ceiling = s.ceiling := by
  obtain ⟨row, isRow, -, rfl | ⟨-, rfl⟩⟩ := settle_eq_some taken
  · exact ⟨rfl, rfl⟩
  · exact ⟨rfl, ceiling_rewritten (s := s.putSweep id none) isRow rfl⟩

theorem ceiling_deleteProvider {provider : Nat} {revokeAll : Bool}
    (taken : s.deleteProvider provider revokeAll now = some s') :
    s'.nextLease = s.nextLease ∧ s'.ceiling = s.ceiling := by
  rw [deleteProvider_eq_some taken]
  refine ⟨rfl, funext fun x => ?_⟩
  refine (Option.map_map ..).trans (congrFun (congrArg _ (funext fun row => ?_)) _)
  rcases revokedWith_cases row provider now with same | entered
  · exact congrArg Lease.maxTTL same
  · obtain ⟨-, moved⟩ := enqueueTransition_eq_some entered
    exact (congrArg Lease.maxTTL moved).trans rfl

theorem step_ceiling (taken : step s action = some s') :
    (s'.nextLease = s.nextLease ∧ s'.ceiling = s.ceiling ∧ ∀ x, s.asks x action = []) ∨
    (∃ provider maxTTL now, action = .mint provider maxTTL now ∧ s'.nextLease = s.nextLease + 1 ∧
      s'.ceiling = update s.ceiling s.nextLease (some maxTTL)) ∨
    ∃ lease maxTTL now, action = .renewLease lease maxTTL now ∧ 0 < maxTTL ∧
      s'.nextLease = s.nextLease ∧
      (s.ceiling lease).isSome ∧ s'.ceiling = update s.ceiling lease (some maxTTL) := by
  have quiet : ∀ {a : Action}, (∀ x, s.asks x a = []) → s'.nextLease = s.nextLease ∧
      s'.ceiling = s.ceiling →
      s'.nextLease = s.nextLease ∧ s'.ceiling = s.ceiling ∧ ∀ x, s.asks x a = [] :=
    fun unasked same => ⟨same.1, same.2, unasked⟩
  cases action with
  | advance | abandonMint | crash =>
    cases taken
    exact .inl (quiet (fun _ => rfl) ⟨rfl, rfl⟩)
  | mint provider maxTTL now =>
    obtain ⟨-, rfl⟩ := mint_eq_some taken
    exact .inr (.inl ⟨provider, maxTTL, now, rfl, rfl, ceiling_putLease rfl⟩)
  | callCreateRole =>
    obtain ⟨_, -, rfl⟩ := callCreateRole_eq_some taken
    exact .inl (quiet (fun _ => rfl) ⟨rfl, rfl⟩)
  | answerMint =>
    obtain ⟨_, _, -, -, rfl⟩ := answerMint_eq_some taken
    exact .inl (quiet (fun _ => rfl) ⟨rfl, rfl⟩)
  | settleMint lease =>
    obtain ⟨_, _, -, -, rfl | ⟨row, minted, isRow, finished, rfl⟩⟩ := settleMint_eq_some taken
    · exact .inl (quiet (fun _ => rfl) ⟨rfl, rfl⟩)
    · obtain ⟨-, -, rfl⟩ := finishMint_eq_some finished
      exact .inl (quiet (fun _ => rfl) ⟨rfl,
        ceiling_rewritten (s := s.putMint lease none) isRow rfl⟩)
  | renewLease lease maxTTL now =>
    obtain ⟨numbered, known, written⟩ := ceiling_enqueue taken
    split at written
    · rename_i positive
      exact .inr (.inr ⟨lease, maxTTL, now, rfl, positive, numbered, known, written⟩)
    · rename_i none
      exact .inl (quiet (fun x => if_neg fun asked => none asked.2) ⟨numbered, written⟩)
  | revokeLease | settleLease =>
    obtain ⟨numbered, -, written⟩ := ceiling_enqueue taken
    exact .inl (quiet (fun _ => rfl) ⟨numbered, written⟩)
  | deleteProvider => exact .inl (quiet (fun _ => rfl) (ceiling_deleteProvider taken))
  | claim =>
    obtain ⟨row, _, isRow, -, rfl⟩ := claimDueLease_eq_some taken
    exact .inl (quiet (fun _ => rfl) ⟨rfl, ceiling_rewritten isRow rfl⟩)
  | retry i =>
    obtain ⟨_, _, -, isRow, -, rfl | ⟨-, rfl⟩⟩ := retry_eq_some taken
    · exact .inl (quiet (fun _ => rfl) ⟨rfl, rfl⟩)
    · exact .inl (quiet (fun _ => rfl) ⟨rfl, ceiling_rewritten (s := s.putSweep i none) isRow rfl⟩)
  | recordIntent i =>
    obtain ⟨_, _, -, isRow, rfl | ⟨-, rfl⟩⟩ := recordIntent_eq_some taken
    · exact .inl (quiet (fun _ => rfl) ⟨rfl, rfl⟩)
    · exact .inl (quiet (fun _ => rfl) ⟨rfl, ceiling_rewritten (s := s.putSweep i _) isRow rfl⟩)
  | withdrawRenewal =>
    obtain ⟨_, -, -, -, settled⟩ := withdrawRenewal_eq_some taken
    exact .inl (quiet (fun _ => rfl) (ceiling_settle settled))
  | callProvider =>
    obtain ⟨_, -, -, rfl⟩ := callProvider_eq_some taken
    exact .inl (quiet (fun _ => rfl) ⟨rfl, rfl⟩)
  | answerSweep =>
    obtain ⟨_, _, _, -, -, -, rfl⟩ := answerSweep_eq_some taken
    exact .inl (quiet (fun _ => rfl) ⟨rfl, rfl⟩)
  | settleSweep =>
    obtain ⟨_, _, _, -, -, settled⟩ := settleSweep_eq_some taken
    exact .inl (quiet (fun _ => rfl) (ceiling_settle settled))
  | execute =>
    obtain ⟨_, -, -, rfl⟩ := execute_eq_some taken
    exact .inl (quiet (fun _ => rfl) ⟨rfl, rfl⟩)
  | discard =>
    obtain ⟨_, -, -, rfl⟩ := discard_eq_some taken
    exact .inl (quiet (fun _ => rfl) ⟨rfl, rfl⟩)

structure Bounded (s : System) (asked : Nat → List Nat) : Prop where
  known : ∀ id present, s.ceiling id = some present → id < s.nextLease ∧ asked id ≠ []
  unasked : ∀ id, s.nextLease ≤ id → asked id = []
  le : ∀ id present, s.ceiling id = some present → ∀ ceiling ∈ asked id, present ≤ ceiling

theorem Bounded.step {asked : Nat → List Nat} (bounded : Bounded s asked) (lowers : Lowers s action)
    (taken : Dynamic.step s action = some s') : Bounded s' fun x => asked x ++ s.asks x action := by
  rcases step_ceiling taken with ⟨numbered, same, unasked⟩ | ⟨provider, maxTTL, now, rfl,
      numbered, written⟩ |
    ⟨lease, maxTTL, now, rfl, positive, numbered, known, written⟩
  · simp only [unasked, append_nil]
    exact ⟨by rw [numbered, same]; exact bounded.known, by rw [numbered]; exact bounded.unasked,
      by rw [same]; exact bounded.le⟩
  · have own : s.asks s.nextLease (.mint provider maxTTL now) = [maxTTL] := if_pos rfl
    have others : ∀ {x}, x ≠ s.nextLease → s.asks x (.mint provider maxTTL now) = [] :=
      fun other => if_neg other
    refine ⟨fun x present found => ?_, fun x unknown => ?_, fun x present found ceiling mem => ?_⟩
    · rw [numbered]
      rw [written] at found
      rcases update_eq_some found with ⟨rfl, -⟩ | ⟨-, old⟩
      · exact ⟨Nat.lt_succ_self _, by rw [own]; simp⟩
      · obtain ⟨older, limited⟩ := bounded.known x present old
        exact ⟨Nat.lt_succ_of_lt older, by simp [limited]⟩
    · rw [numbered] at unknown
      rw [others (Nat.ne_of_gt unknown), bounded.unasked x (Nat.le_of_lt unknown)]
      rfl
    · rw [written] at found
      rcases update_eq_some found with ⟨rfl, rfl⟩ | ⟨other, old⟩
      · rw [own, bounded.unasked _ Nat.le.refl] at mem
        exact Nat.le_of_eq (mem_singleton.mp mem).symm
      · rw [others other, append_nil] at mem
        exact bounded.le x present old ceiling mem
  · obtain ⟨before, wasPresent⟩ := Option.isSome_iff_exists.mp known
    have others : ∀ {x}, x ≠ lease → s.asks x (.renewLease lease maxTTL now) = [] := fun other =>
      if_neg fun asked => other asked.1
    refine ⟨fun x present found => ?_, fun x unknown => ?_, fun x present found ceiling mem => ?_⟩
    · rw [written] at found
      have earlier : ∃ present, s.ceiling x = some present := by
        rcases update_eq_some found with ⟨rfl, -⟩ | ⟨-, old⟩
        · exact ⟨before, wasPresent⟩
        · exact ⟨present, old⟩
      obtain ⟨_, was⟩ := earlier
      obtain ⟨older, limited⟩ := bounded.known x _ was
      exact ⟨numbered ▸ older, by simp [limited]⟩
    · rw [numbered] at unknown
      have other : x ≠ lease := fun same =>
        absurd (bounded.known x before (same ▸ wasPresent)).1 (Nat.not_lt.mpr unknown)
      rw [others other, append_nil]
      exact bounded.unasked x unknown
    · rw [written] at found
      rcases update_eq_some found with ⟨rfl, rfl⟩ | ⟨other, old⟩
      · rcases mem_append.mp mem with earlier | new
        · exact Nat.le_trans (lowers (Option.isSome_of_eq_some taken) before wasPresent)
            (bounded.le x before wasPresent ceiling earlier)
        · rw [System.asks, if_pos ⟨rfl, positive⟩] at new
          exact Nat.le_of_eq (mem_singleton.mp new).symm
      · rw [others other, append_nil] at mem
        exact bounded.le x present old ceiling mem

/-- The row of a mint that has not reached the provider: the worker may recover it, nobody may
renew it. -/
structure Lease.Unserved (row : Lease) : Prop where
  active : row.state ≠ .active
  renewing : row.state ≠ .renewing
  latest : ∀ kind ∈ row.latestEffectKind, kind = .mint ∨ kind = .revoke

/-- What a mint and a sweep remember of the ceiling is what the row has, for as long as the row is
theirs. -/
structure Aligned (s : System) : Prop where
  lease_known : ∀ id row, s.leases id = some row → id < s.nextLease
  swept : ∀ i sweep, s.sweeps i = some sweep →
    ∃ row, s.leases sweep.lease = some row ∧ sweep.token ≤ row.claimToken ∧
      (row.claimToken = sweep.token → row.term.isSome → row.maxTTL = sweep.maxTTL)
  minted : ∀ id maxTTL, s.mints id = some (.recorded maxTTL) →
    ∃ row, s.leases id = some row ∧ row.maxTTL = maxTTL ∧ row.Unserved
  recovers : ∀ id maxTTL, s.mints id = some (.recorded maxTTL) →
    ∀ i sweep, s.sweeps i = some sweep → sweep.lease = id → sweep.kind = .mint ∨
      sweep.kind = .revoke

theorem aligned_start (org : Nat → Nat) : Aligned (System.start org) := by
  constructor <;> simp [System.start]

section Rows
variable {row : Lease} {sweep : Sweep}

theorem Lease.Unserved.deriveKind {kind : Kind} (unserved : row.Unserved)
    (derived : row.deriveKind = some kind) : kind = .mint ∨ kind = .revoke := by
  unfold Lease.deriveKind at derived
  split at derived
  · exact absurd ‹_› unserved.renewing
  · exact .inr (Option.some.inj derived).symm
  · exact .inl (Option.some.inj derived).symm
  · exact absurd ‹_› unserved.active
  · cases latest : row.latestEffectKind with
    | none =>
      rw [latest] at derived
      exact .inl (Option.some.inj derived).symm
    | some recorded =>
      rw [latest] at derived
      cases derived
      exact unserved.latest _ latest
  all_goals cases derived

/-- A recovery leaves the row out of the reach of renewals. -/
theorem Lease.Unserved.settle {kind : Kind} {issuedAt : Option Nat} {newExpiry nextAttemptAt : Nat}
    {answer : Answer} (unserved : row.Unserved) (recovers : kind = .mint ∨ kind = .revoke) :
    (row.settle (settlement kind issuedAt newExpiry answer) nextAttemptAt).Unserved := by
  rcases recovers with rfl | rfl <;> cases answer <;> exact ⟨nofun, nofun, unserved.latest⟩

theorem Lease.Unserved.enqueueTransition {target : LeaseState} {moved : Lease} {requested : Nat}
    (unserved : row.Unserved) (entered : row.enqueueTransition target requested now = some moved)
    (asked : target = .renewing ∨ requested = 0) : moved.Unserved ∧ moved.maxTTL = row.maxTTL := by
  obtain ⟨may, rfl⟩ := enqueueTransition_eq_some entered
  have served : target ≠ .renewing := by
    rintro rfl
    exact unserved.active (of_decide_eq_true may)
  have ceased : target ≠ .active := by
    rintro rfl
    cases may
  refine ⟨⟨ceased, served, unserved.latest⟩, ?_⟩
  cases asked.resolve_left served
  rfl

end Rows

section
variable {row : Lease} {sweep : Sweep} (aligned : Aligned s)
include aligned

theorem Aligned.putLease (isRow : s.leases id = some row)
    (token : row.claimToken ≤ written.claimToken) (kept : written.claimToken = row.claimToken →
      written.term.isSome → row.term.isSome ∧ written.maxTTL = row.maxTTL)
    (unserved : ∀ maxTTL, s.mints id = some (.recorded maxTTL) → row.Unserved →
      written.Unserved ∧ written.maxTTL = row.maxTTL) : Aligned (s.putLease id written) := by
  refine { aligned with lease_known := ?_, swept := ?_, minted := ?_ }
  · intro x r found
    rcases update_eq_some found with ⟨rfl, -⟩ | ⟨-, old⟩
    · exact aligned.lease_known x row isRow
    · exact aligned.lease_known x r old
  · intro i sweep isSweep
    obtain ⟨old, wasThere, atMost, same⟩ := aligned.swept i sweep isSweep
    by_cases own : sweep.lease = id
    · cases isRow.symm.trans (own ▸ wasThere)
      refine ⟨written, own ▸ update_self .., Nat.le_trans atMost token, fun current held => ?_⟩
      have unclaimed : row.claimToken = sweep.token := Nat.le_antisymm (current ▸ token) atMost
      obtain ⟨wasHeld, unchanged⟩ := kept (current.trans unclaimed.symm) held
      exact unchanged.trans (same unclaimed wasHeld)
    · exact ⟨old, (update_of_ne own ..).trans wasThere, atMost, same⟩
  · intro x ceiling recorded
    obtain ⟨old, wasThere, same, was⟩ := aligned.minted x ceiling recorded
    by_cases own : x = id
    · cases own
      cases isRow.symm.trans wasThere
      obtain ⟨still, unchanged⟩ := unserved ceiling recorded was
      exact ⟨written, update_self .., unchanged.trans same, still⟩
    · exact ⟨old, (update_of_ne own ..).trans wasThere, same, was⟩

/-- A row that nobody holds says nothing of the sweeps. -/
theorem Aligned.release (isRow : s.leases id = some row)
    (token : written.claimToken = row.claimToken) (free : written.term = none)
    (unserved : ∀ maxTTL, s.mints id = some (.recorded maxTTL) → row.Unserved →
      written.Unserved ∧ written.maxTTL = row.maxTTL) : Aligned (s.putLease id written) :=
  aligned.putLease isRow (Nat.le_of_eq token.symm) (fun _ held => by simp [free] at held) unserved

theorem Aligned.endSweep (id : Nat) : Aligned (s.putSweep id none) := by
  refine { aligned with swept := ?_, recovers := ?_ }
  · exact fun i sweep found => aligned.swept i sweep (update_none_eq_some found)
  · exact fun x ceiling recorded i sweep found =>
      aligned.recovers x ceiling recorded i sweep (update_none_eq_some found)

theorem Aligned.putSweep (id : Nat)
    (swept : ∃ row, s.leases sweep.lease = some row ∧ sweep.token ≤ row.claimToken ∧
      (row.claimToken = sweep.token → row.term.isSome → row.maxTTL = sweep.maxTTL))
    (recovers : ∀ maxTTL, s.mints sweep.lease = some (.recorded maxTTL) →
      sweep.kind = .mint ∨ sweep.kind = .revoke) : Aligned (s.putSweep id (some sweep)) := by
  refine { aligned with swept := ?_, recovers := ?_ }
  · intro i x found
    rcases update_eq_some found with ⟨-, rfl⟩ | ⟨-, old⟩
    · exact swept
    · exact aligned.swept i x old
  · intro x ceiling recorded i other found own
    rcases update_eq_some found with ⟨-, rfl⟩ | ⟨-, old⟩
    · exact recovers ceiling (own ▸ recorded)
    · exact aligned.recovers x ceiling recorded i other old own

theorem Aligned.advanceSweep (isSweep : s.sweeps id = some sweep) (stage : Stage) :
    Aligned (s.putSweep id (some { sweep with stage })) :=
  aligned.putSweep id (aligned.swept id sweep isSweep)
    fun ceiling recorded => aligned.recovers _ ceiling recorded id sweep isSweep rfl

theorem Aligned.putMint {phase : Option MintPhase}
    (later : ∀ maxTTL, phase ≠ some (.recorded maxTTL)) : Aligned (s.putMint id phase) := by
  have before : ∀ {x maxTTL}, (s.putMint id phase).mints x = some (.recorded maxTTL) →
      s.mints x = some (.recorded maxTTL) := by
    intro x maxTTL found
    rcases update_cases found with ⟨-, new⟩ | ⟨-, old⟩
    · exact absurd new (later maxTTL)
    · exact old
  exact { aligned with
    minted := fun x ceiling recorded => aligned.minted x ceiling (before recorded)
    recovers := fun x ceiling recorded => aligned.recovers x ceiling (before recorded) }

theorem Aligned.mint {provider : Nat} (taken : s.mint provider maxTTL now = some s') :
    Aligned s' := by
  obtain ⟨-, rfl⟩ := mint_eq_some taken
  have unswept : ∀ i sweep, s.sweeps i = some sweep → sweep.lease ≠ s.nextLease := by
    intro i sweep isSweep
    obtain ⟨row, isRow, -⟩ := aligned.swept i sweep isSweep
    exact Nat.ne_of_lt (aligned.lease_known _ row isRow)
  refine ⟨fun x row found => ?_, fun i sweep isSweep => ?_, fun x ceiling recorded => ?_,
    fun x ceiling recorded i sweep isSweep own => ?_⟩
  · rcases update_eq_some found with ⟨rfl, -⟩ | ⟨-, old⟩
    · exact Nat.lt_succ_self _
    · exact Nat.lt_succ_of_lt (aligned.lease_known x row old)
  · obtain ⟨row, isRow, rest⟩ := aligned.swept i sweep isSweep
    exact ⟨row, (update_of_ne (unswept i sweep isSweep) ..).trans isRow, rest⟩
  · rcases update_eq_some recorded with ⟨rfl, new⟩ | ⟨other, old⟩
    · cases new
      exact ⟨_, update_self .., rfl, nofun, nofun, nofun⟩
    · obtain ⟨row, isRow, rest⟩ := aligned.minted x ceiling old
      exact ⟨row, (update_of_ne other ..).trans isRow, rest⟩
  · rcases update_eq_some recorded with ⟨rfl, -⟩ | ⟨-, old⟩
    · exact absurd own (unswept i sweep isSweep)
    · exact aligned.recovers x ceiling old i sweep isSweep own

theorem Aligned.enqueueLeaseTransition {target : LeaseState}
    (asked : target = .renewing ∨ maxTTL = 0)
    (taken : s.enqueueLeaseTransition id target maxTTL now = some s') : Aligned s' := by
  obtain ⟨row, moved, isRow, entered, rfl⟩ := enqueueLeaseTransition_eq_some taken
  obtain ⟨-, fields⟩ := enqueueTransition_eq_some entered
  refine aligned.release isRow (by rw [fields]) (by rw [fields]) ?_
  exact fun _ _ unserved => unserved.enqueueTransition entered asked

theorem Aligned.deleteProvider {provider : Nat} {revokeAll : Bool}
    (taken : s.deleteProvider provider revokeAll now = some s') : Aligned s' := by
  rw [deleteProvider_eq_some taken]
  refine { aligned with lease_known := ?_, swept := ?_, minted := ?_ }
  · intro x row found
    obtain ⟨old, wasThere, -⟩ := Option.map_eq_some_iff.mp found
    exact aligned.lease_known x old wasThere
  · intro i sweep isSweep
    obtain ⟨row, isRow, atMost, same⟩ := aligned.swept i sweep isSweep
    refine ⟨row.revokedWith provider now, by simp [isRow], ?_⟩
    rcases revokedWith_cases row provider now with unchanged | entered
    · rw [unchanged]
      exact ⟨atMost, same⟩
    · obtain ⟨-, moved⟩ := enqueueTransition_eq_some entered
      rw [moved]
      exact ⟨atMost, fun _ held => nomatch held⟩
  · intro x ceiling recorded
    obtain ⟨row, isRow, same, unserved⟩ := aligned.minted x ceiling recorded
    refine ⟨row.revokedWith provider now, by simp [isRow], ?_⟩
    rcases revokedWith_cases row provider now with unchanged | entered
    · rw [unchanged]
      exact ⟨same, unserved⟩
    · obtain ⟨still, kept⟩ := unserved.enqueueTransition entered (.inr rfl)
      exact ⟨kept.trans same, still⟩

theorem Aligned.claimDueLease {worker : Nat}
    (taken : s.claimDueLease worker id now = some s') : Aligned s' := by
  obtain ⟨row, kind, isRow, derived, rfl⟩ := claimDueLease_eq_some taken
  have claimed : Aligned (s.putLease id (row.claimed worker now)) :=
    aligned.putLease isRow (Nat.le_succ _) (fun same => absurd same (Nat.succ_ne_self _))
      fun _ _ unserved => ⟨⟨unserved.active, unserved.renewing, unserved.latest⟩, rfl⟩
  have recovers : ∀ ceiling, s.mints id = some (.recorded ceiling) → kind = .mint ∨
      kind = .revoke := by
    intro ceiling recorded
    obtain ⟨_, wasThere, -, unserved⟩ := aligned.minted id ceiling recorded
    cases isRow.symm.trans wasThere
    exact unserved.deriveKind derived
  have noted : Aligned ((s.putLease id (row.claimed worker now)).putSweep s.nextSweep
      (some (row.sweep worker id now kind))) :=
    claimed.putSweep s.nextSweep ⟨_, update_self .., Nat.le.refl, fun _ _ => rfl⟩ recovers
  exact { noted with }

theorem Aligned.settle {settlement : Settlement} {readAt : Nat}
    (unserved : ∀ maxTTL, s.mints sweep.lease = some (.recorded maxTTL) →
      ∀ (row : Lease) (nextAttemptAt : Nat), row.Unserved →
        (row.settle settlement nextAttemptAt).Unserved)
    (taken : s.settle id sweep settlement readAt now = some s') : Aligned s' := by
  obtain ⟨row, isRow, -, rfl | ⟨-, rfl⟩⟩ := settle_eq_some taken
  · exact aligned.endSweep id
  · exact (aligned.endSweep id).release isRow rfl rfl
      fun ceiling recorded was => ⟨unserved ceiling recorded row _ was, rfl⟩

end

theorem Aligned.step (aligned : Aligned s) (taken : Dynamic.step s action = some s') :
    Aligned s' := by
  cases action with
  | advance =>
    cases taken
    exact { aligned with }
  | mint => exact aligned.mint taken
  | callCreateRole lease =>
    obtain ⟨_, -, rfl⟩ := callCreateRole_eq_some taken
    have sent : Aligned (s.send lease .createRole) := { aligned with }
    exact sent.putMint nofun
  | answerMint =>
    obtain ⟨_, _, -, -, rfl⟩ := answerMint_eq_some taken
    exact aligned.putMint nofun
  | settleMint lease =>
    obtain ⟨_, _, -, -, rfl | ⟨row, minted, isRow, finished, rfl⟩⟩ := settleMint_eq_some taken
    · exact aligned.putMint nofun
    · obtain ⟨-, -, rfl⟩ := finishMint_eq_some finished
      have ended : Aligned (s.putMint lease none) := aligned.putMint nofun
      refine { ended.release isRow ?_ ?_ fun ceiling recorded => ?_ with }
      · rfl
      · rfl
      · cases (update_self ..).symm.trans recorded
  | abandonMint =>
    cases taken
    exact aligned.putMint nofun
  | renewLease => exact aligned.enqueueLeaseTransition (.inl rfl) taken
  | revokeLease | settleLease => exact aligned.enqueueLeaseTransition (.inr rfl) taken
  | deleteProvider => exact aligned.deleteProvider taken
  | claim => exact aligned.claimDueLease taken
  | retry id =>
    obtain ⟨_, row, -, isRow, -, rfl | ⟨-, rfl⟩⟩ := retry_eq_some taken
    · exact aligned.endSweep id
    · exact (aligned.endSweep id).release isRow rfl rfl
        fun _ _ was => ⟨⟨was.active, was.renewing, was.latest⟩, rfl⟩
  | recordIntent id =>
    obtain ⟨sweep, row, isSweep, isRow, rfl | ⟨-, rfl⟩⟩ := recordIntent_eq_some taken
    · exact aligned.endSweep id
    · refine (aligned.advanceSweep isSweep .intended).putLease isRow Nat.le.refl
        (fun _ held => ⟨held, rfl⟩) fun ceiling recorded was =>
        ⟨⟨was.active, was.renewing, ?_⟩, rfl⟩
      rintro kind ⟨⟩
      exact aligned.recovers _ ceiling recorded id sweep isSweep rfl
  | withdrawRenewal id =>
    obtain ⟨sweep, isSweep, -, isRenewal, settled⟩ := withdrawRenewal_eq_some taken
    refine aligned.settle (fun ceiling recorded => ?_) settled
    rcases aligned.recovers _ ceiling recorded id sweep isSweep rfl with kind | kind <;>
      cases isRenewal.symm.trans kind
  | callProvider id =>
    obtain ⟨sweep, isSweep, -, rfl⟩ := callProvider_eq_some taken
    have sent : Aligned (s.send sweep.lease sweep.kind.statement) := { aligned with }
    exact sent.advanceSweep isSweep _
  | answerSweep =>
    obtain ⟨_, _, _, isSweep, -, -, rfl⟩ := answerSweep_eq_some taken
    exact aligned.advanceSweep isSweep _
  | settleSweep id =>
    obtain ⟨sweep, _, _, isSweep, -, settled⟩ := settleSweep_eq_some taken
    exact aligned.settle (fun ceiling recorded _ _ was =>
      was.settle (aligned.recovers _ ceiling recorded id sweep isSweep rfl)) settled
  | crash id =>
    cases taken
    exact aligned.endSweep id
  | execute =>
    obtain ⟨_, -, -, rfl⟩ := execute_eq_some taken
    exact { aligned with }
  | discard =>
    obtain ⟨_, -, -, rfl⟩ := discard_eq_some taken
    exact { aligned with }

/-- The ceiling that is sent is the one of the row: a mint's row cannot have been renewed, and a
sweep that holds its claim has read the row as it is. -/
theorem Aligned.sends {sent : Sent} (aligned : Aligned s) (held : ExtendsWhileHeld s action)
    (sends : s.sends action = some sent) : s.ceiling sent.lease = some sent.ceiling := by
  have isSent := Option.isSome_of_eq_some sends
  unfold System.sends at sends
  split at sends
  · split at sends
    · rename_i recorded
      obtain ⟨-, same⟩ := Option.ite_none_left_eq_some.mp sends
      cases same
      obtain ⟨row, isRow, ceiling, -⟩ := aligned.minted _ _ recorded
      simp [System.ceiling, isRow, ceiling]
    · cases sends
  · split at sends
    · rename_i sweep isSweep
      obtain ⟨-, same⟩ := Option.ite_none_left_eq_some.mp sends
      cases same
      obtain ⟨row, isRow, -, agree⟩ := aligned.swept _ sweep isSweep
      have holds := held isSent
      simp only [System.holdsClaim, isSweep, isRow, Option.any_some] at holds
      obtain ⟨current, under⟩ := heldBy_eq_true holds
      simp [System.ceiling, isRow, agree current under]
    · cases sends
  · cases sends

theorem sends_read {sent : Sent} (sends : s.sends action = some sent) : sent.readAt ≤ s.clock := by
  unfold System.sends at sends
  split at sends
  · split at sends
    · obtain ⟨past, same⟩ := Option.ite_none_left_eq_some.mp sends
      cases same
      exact Nat.not_lt.mp past
    · cases sends
  · split at sends
    · obtain ⟨allowed, same⟩ := Option.ite_none_left_eq_some.mp sends
      cases same
      push Not at allowed
      exact allowed.1
    · cases sends
  · cases sends

end Steps

theorem ceilings_concat (id : Nat) (past : List Action) (action : Action) (s : System) :
    ceilings id s (past ++ [action]) = ceilings id s past ++
      if (step (runFrom step s past) action).isSome then (runFrom step s past).asks id action
        else [] := by
  induction past generalizing s with
  | nil => exact append_nil _
  | cons a _ ih => exact (congrArg _ (ih (next step s a))).trans (append_assoc ..).symm

theorem bounded_run (org : Nat → Nat) (actions : List Action) :
      AllowedFrom step Tightens (System.start org) actions →
      Bounded (runFrom step (System.start org) actions) fun id => ceilings id
        (System.start org) actions := by
  refine runFrom_history step (System.start org)
    (fun past s => AllowedFrom step Tightens (System.start org) past →
      Bounded s fun id => ceilings id (System.start org) past)
    (fun _ => ⟨fun _ _ found => (nomatch found), fun _ _ => rfl, fun _ _ found => nomatch found⟩)
    (fun past action s' ih taken _ allowed => ?_) (fun past action ih taken allowed => ?_) actions
  · obtain ⟨before, met, -⟩ := allowedFrom_append.mp allowed
    simp only [ceilings_concat, taken, Option.isSome_some, if_true]
    exact (ih before).step met.1 taken
  · simp only [ceilings_concat, taken, Option.isSome_none, Bool.false_eq_true, if_false, append_nil]
    exact ih (allowedFrom_append.mp allowed).1

/-- Where renewals only lower the ceiling of the row and a sweep extends a role only while it holds
its claim, each end of validity that is sent is within every ceiling asked for so far. -/
theorem validity_within_ceilings (org : Nat → Nat) (past : List Action)
    (action : Action) (sent : Sent)
    (tightens : AllowedFrom step Tightens (System.start org) (past ++ [action]))
    (sends : (runFrom step (System.start org) past).sends action = some sent) :
    ceilings sent.lease (System.start org) past ≠ [] ∧
      sent.readAt ≤ (runFrom step (System.start org) past).clock ∧
      ∀ ceiling ∈ ceilings sent.lease (System.start org) past, sent.validUntil ≤ sent.readAt +
        ceiling := by
  obtain ⟨before, met, -⟩ := allowedFrom_append.mp tightens
  have bounded := bounded_run org past before
  have aligned : Aligned (runFrom step (System.start org) past) :=
    runFrom_invariant step Aligned (fun _ _ _ aligned taken => aligned.step taken) past _
      (aligned_start org)
  have present := aligned.sends met.2 sends
  exact ⟨(bounded.known _ _ present).2, sends_read sends, fun ceiling mem =>
    Nat.add_le_add_left (bounded.le _ _ present ceiling mem) sent.readAt⟩

def mintedAndTightened : List Action :=
  [.mint 0 3600 0, .callCreateRole 0 0, .execute 0, .answerMint 0 .success,
    .settleMint 0 true 0, .advance 60, .renewLease 0 600 60, .claim 7 0 60, .recordIntent 0 60]

theorem validity_within_ceilings_tightened :
    ceilings 0 (System.start fun _ => 0) mintedAndTightened = [3600, 600] ∧
      Sent.validUntil ⟨0, 60, 600⟩ ≤ 60 + 600 := by
  have sent : (runFrom step (System.start fun _ => 0) mintedAndTightened).sends
      (.callProvider 0 60) = some ⟨0, 60, 600⟩ := by
    decide +kernel
  have asked : ceilings 0 (System.start fun _ => 0) mintedAndTightened = [3600, 600] := by
    decide +kernel
  obtain ⟨-, -, within⟩ :=
    validity_within_ceilings (fun _ => 0) mintedAndTightened (.callProvider 0 60)
      ⟨0, 60, 600⟩ (by decide +kernel) sent
  exact ⟨asked, within 600 (by rw [asked]; simp)⟩

def mintedAndRaised : List Action :=
  [.mint 0 60 0, .callCreateRole 0 0, .execute 0, .answerMint 0 .success, .settleMint 0 true 0,
    .renewLease 0 3600 0, .claim 7 0 0, .recordIntent 0 0]

def mintedAndOvertaken : List Action :=
  [.mint 0 3600 0, .callCreateRole 0 0, .execute 0, .answerMint 0 .success, .settleMint 0 true 0,
    .renewLease 0 0 0,
    .claim 7 0 0, .recordIntent 0 0, .advance 300, .claim 8 0 300, .recordIntent 1 300,
    .callProvider 1 300, .execute 1,
    .answerSweep 1 .success, .settleSweep 1 300 300, .renewLease 0 60 300]

/-- A lease minted for a minute is extended by an hour. -/
theorem renewal_raises_ceiling :
    ceilings 0 (System.start fun _ => 0) mintedAndRaised = [60, 3600] ∧
      (runFrom step (System.start fun _ => 0) mintedAndRaised).sends
      (.callProvider 0 0) = some ⟨0, 0, 3600⟩ ∧
      ceilings 0 (System.start fun _ => 0) mintedAndOvertaken = [3600, 60] ∧
      (runFrom step (System.start fun _ => 0) mintedAndOvertaken).sends (.callProvider 0 300) =
      some ⟨0, 300, 3600⟩ := by
  decide +kernel

end Hikyo.Dynamic
