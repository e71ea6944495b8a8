import Hikyo.Compose.Snapshot
import Hikyo.Envelope.Binding
import Mathlib.Data.List.Dedup

/-!
# Loaded snapshots

`loaded_snapshot_sound`: in every history of saves, crashed or not, and of containers put in place,
a snapshot that loads was sealed for the scope that is expected, is not older than any save that was
completed there, has not expired and is within the maximal age.  The mark never falls, and the
header is authenticated in canonical form (`parseSnapshotBinding_header`).  `sealed_snapshot_loads`
is the other direction.
-/

namespace Hikyo.Compose

open Hikyo.Lib Hikyo.Envelope List Function

variable {nonce : Bytes} {aad : SnapshotAAD} {codec : SnapshotCodec} {delivery : SnapshotDelivery}
  {canonical scope : SnapshotScope} {name : String} {α : Type}

theorem canonicalSet_canonicalSet [LinearOrder α] (items : List α) :
    canonicalSet (canonicalSet items) = canonicalSet items := by
  have sorted : (canonicalSet items).Pairwise (· ≤ ·) := pairwise_insertionSort _ _
  have distinct : (canonicalSet items).Nodup :=
    (perm_insertionSort _ _).nodup_iff.mpr (nodup_dedup items)
  unfold canonicalSet at sorted distinct ⊢
  rw [distinct.dedup, sorted.insertionSort_eq]

theorem canonicalRequiredSet_eq_ok {items set : List String}
    (made : canonicalRequiredSet name items = .ok set) :
    set = canonicalSet items := by
  unfold canonicalRequiredSet at made
  split at made
  · cases made
  split at made
  · cases made
  · exact (Except.ok.inj made).symm

theorem canonicalSnapshotScope_eq_ok (made : canonicalSnapshotScope scope = .ok canonical) :
    canonical = { scope with targetNames := canonicalSet scope.targetNames } := by
  obtain ⟨-, -, made⟩ := bind_eq_ok.mp made
  obtain ⟨_, isSet, made⟩ := bind_eq_ok.mp made
  cases made
  rw [canonicalRequiredSet_eq_ok isSet]

theorem canonicalSnapshotDelivery_eq_ok {canonical : SnapshotDelivery}
    (made : canonicalSnapshotDelivery delivery = .ok canonical) :
    canonical = { delivery with projection := canonicalSet delivery.projection } := by
  obtain ⟨-, -, made⟩ := bind_eq_ok.mp made
  split at made
  · cases made
  obtain ⟨_, isSet, made⟩ := bind_eq_ok.mp made
  split at made
  · cases made
  · cases made
    rw [canonicalRequiredSet_eq_ok isSet]

/-! What is canonical is accepted again, as it is. -/

theorem mem_canonicalSet [LinearOrder α] {items : List α} {a : α} :
    a ∈ canonicalSet items ↔ a ∈ items := by
  simp [canonicalSet]

theorem canonicalRequiredSet_again {items set : List String}
    (made : canonicalRequiredSet name items = .ok set) :
    canonicalRequiredSet name set = .ok set := by
  have isSet := canonicalRequiredSet_eq_ok made
  subst isSet
  unfold canonicalRequiredSet at made ⊢
  obtain ⟨some, made⟩ := unless_eq_ok.mp made
  obtain ⟨filled, made⟩ := unless_eq_ok.mp made
  have someAgain : canonicalSet items ≠ [] := by
    obtain ⟨item, inItems⟩ := exists_mem_of_ne_nil items some
    exact ne_nil_of_mem (mem_canonicalSet.mpr inItems)
  have filledAgain : ¬ (canonicalSet items).any isBlank = true := by
    rw [any_eq_true] at filled ⊢
    rintro ⟨item, inSet, blank⟩
    exact filled ⟨item, mem_canonicalSet.mp inSet, blank⟩
  rw [if_neg someAgain, if_neg filledAgain, canonicalSet_canonicalSet]

theorem canonicalSnapshotScope_again (made : canonicalSnapshotScope scope = .ok canonical) :
    canonicalSnapshotScope canonical = .ok canonical := by
  obtain ⟨⟨⟩, filled, made⟩ := bind_eq_ok.mp made
  obtain ⟨targets, isSet, made⟩ := bind_eq_ok.mp made
  cases made
  refine bind_eq_ok.mpr ⟨(), filled, ?_⟩
  exact bind_eq_ok.mpr ⟨targets, canonicalRequiredSet_again isSet, rfl⟩

theorem canonicalSnapshotDelivery_again {canonical : SnapshotDelivery}
    (made : canonicalSnapshotDelivery delivery = .ok canonical) :
    canonicalSnapshotDelivery canonical = .ok canonical := by
  obtain ⟨⟨⟩, filled, made⟩ := bind_eq_ok.mp made
  obtain ⟨revision, made⟩ := unless_eq_ok.mp made
  obtain ⟨projection, isSet, made⟩ := bind_eq_ok.mp made
  obtain ⟨window, made⟩ := unless_eq_ok.mp made
  cases made
  refine bind_eq_ok.mpr ⟨(), filled, ?_⟩
  rw [if_neg revision]
  refine bind_eq_ok.mpr ⟨projection, canonicalRequiredSet_again isSet, ?_⟩
  rw [if_neg window]
  rfl

section Bindings
variable {b : SnapshotBinding}

theorem SnapshotBinding.targets_canonical (b : SnapshotBinding) :
    canonicalSet b.scope.targetNames = b.scope.targetNames := by
  obtain ⟨raw, made⟩ := b.scopeCanonical
  rw [canonicalSnapshotScope_eq_ok made]
  exact canonicalSet_canonicalSet raw.targetNames

theorem SnapshotBinding.aad_eq_ok (isAAD : b.aad = .ok aad) :
    ∃ delivery, b.delivery = some delivery ∧ aad = snapshotAAD b.scope delivery ∧
      canonicalSet delivery.projection = delivery.projection := by
  unfold SnapshotBinding.aad at isAAD
  split at isAAD
  · cases isAAD
  rename_i delivery isDelivery
  cases isAAD
  obtain ⟨raw, made⟩ := b.deliveryCanonical delivery isDelivery
  refine ⟨delivery, isDelivery, rfl, ?_⟩
  rw [canonicalSnapshotDelivery_eq_ok made]
  exact canonicalSet_canonicalSet raw.projection

theorem SnapshotBinding.aad_canonical (isAAD : b.aad = .ok aad) : aad.canonical = aad := by
  obtain ⟨_, -, rfl, projection⟩ := SnapshotBinding.aad_eq_ok isAAD
  unfold SnapshotAAD.canonical snapshotAAD
  rw [b.targets_canonical, projection]

theorem newSnapshotBinding_eq_ok (made : newSnapshotBinding scope = .ok b) :
    b.scope = { scope with targetNames := canonicalSet scope.targetNames } ∧ b.delivery = none := by
  unfold newSnapshotBinding at made
  split at made
  · cases made
  rename_i canonical isCanonical
  cases made
  exact ⟨canonicalSnapshotScope_eq_ok isCanonical, rfl⟩

theorem withDelivery_eq_ok {b' : SnapshotBinding} (made : b.withDelivery delivery = .ok b') :
    b'.scope = b.scope ∧
      b'.delivery = some { delivery with projection := canonicalSet delivery.projection } := by
  unfold SnapshotBinding.withDelivery at made
  split at made
  · cases made
  split at made
  · cases made
  rename_i canonical isCanonical
  cases made
  exact ⟨rfl, congrArg some (canonicalSnapshotDelivery_eq_ok isCanonical)⟩

theorem liftBinding_eq_ok {x : Except BindingError α} {a : α} (isOk : liftBinding x = .ok a) :
    x = .ok a := by
  cases x with
  | error => cases isOk
  | ok =>
    cases isOk
    rfl

theorem orError_eq_ok {error : SnapshotError} {x : Option α} {a : α}
    (isOk : orError error x = .ok a) : x = some a := by
  cases x with
  | none => cases isOk
  | some =>
    cases isOk
    rfl

theorem parseSnapshotBinding_header {dir : String} {parsed : SnapshotBinding}
    (isAAD : b.aad = .ok aad)
    (parses : parseSnapshotBinding codec dir (codec.header aad.canonical) = .ok parsed) :
    parsed.scope = { b.scope with storageDir := dir } ∧ parsed.aad = .ok aad := by
  rw [SnapshotBinding.aad_canonical isAAD] at parses
  obtain ⟨_, -, rfl, projection⟩ := SnapshotBinding.aad_eq_ok isAAD
  obtain ⟨_, read, parses⟩ := bind_eq_ok.mp parses
  have isFound := orError_eq_ok read
  rw [codec.parse_header] at isFound
  cases isFound
  obtain ⟨_, made, parses⟩ := bind_eq_ok.mp parses
  obtain ⟨scopes, -⟩ := newSnapshotBinding_eq_ok (liftBinding_eq_ok made)
  obtain ⟨sameScope, deliveries⟩ := withDelivery_eq_ok (liftBinding_eq_ok parses)
  have scope : parsed.scope = { b.scope with storageDir := dir } := by
    rw [sameScope, scopes]
    simp only [snapshotAAD, b.targets_canonical]
  refine ⟨scope, ?_⟩
  unfold SnapshotBinding.aad
  rw [deliveries, scope]
  simp only [snapshotAAD, projection]

theorem newSnapshotBinding_ok (made : canonicalSnapshotScope scope = .ok canonical) :
    ∃ b, newSnapshotBinding scope = .ok b := by
  unfold newSnapshotBinding
  split
  · rename_i refused
    rw [made] at refused
    cases refused
  · exact ⟨_, rfl⟩

theorem withDelivery_ok {canonical : SnapshotDelivery} (scopeOnly : b.delivery = none)
    (made : canonicalSnapshotDelivery delivery = .ok canonical) :
    ∃ b', b.withDelivery delivery = .ok b' := by
  unfold SnapshotBinding.withDelivery
  rw [scopeOnly]
  split
  · rename_i delivered
    cases delivered
  split
  · rename_i refused
    rw [made] at refused
    cases refused
  · exact ⟨_, rfl⟩

theorem parseSnapshotBinding_ok (codec : SnapshotCodec) (isAAD : b.aad = .ok aad) :
    ∃ parsed, parseSnapshotBinding codec b.scope.storageDir (codec.header aad.canonical) =
      .ok parsed := by
  rw [SnapshotBinding.aad_canonical isAAD]
  obtain ⟨delivery, isDelivery, rfl, -⟩ := SnapshotBinding.aad_eq_ok isAAD
  obtain ⟨_, madeScope⟩ := b.scopeCanonical
  obtain ⟨_, madeDelivery⟩ := b.deliveryCanonical delivery isDelivery
  obtain ⟨scopeOnly, isScope⟩ := newSnapshotBinding_ok (canonicalSnapshotScope_again madeScope)
  obtain ⟨parsed, isParsed⟩ := withDelivery_ok (newSnapshotBinding_eq_ok isScope).2
    (canonicalSnapshotDelivery_again madeDelivery)
  refine ⟨parsed, ?_⟩
  unfold parseSnapshotBinding
  rw [codec.parse_header]
  refine bind_eq_ok.mpr ⟨_, rfl, bind_eq_ok.mpr ⟨scopeOnly, ?_, ?_⟩⟩
  · exact congrArg liftBinding isScope
  · exact congrArg liftBinding isParsed

end Bindings

theorem unframe_frame {header framed ciphertext : Bytes} (isFrame : frame header = some framed) :
    unframeSnapshot (frameSnapshot framed ciphertext) = some (header, ciphertext) := by
  unfold unframeSnapshot frameSnapshot
  rw [if_pos ( isPrefixOf_iff_prefix.mpr (prefix_append ..)), drop_left]
  exact readFrame_append isFrame ciphertext

theorem contextMismatch_eq_none {b expect : SnapshotScope}
    (matching : contextMismatch b expect = none) :
    { b with storageDir := expect.storageDir } = expect := by
  unfold contextMismatch at matching
  repeat
    split at matching
    · cases matching
  rename_i origins orgs projects environments credentials modes targets
  simp only [ne_eq, not_not] at origins orgs projects environments credentials modes targets
  rw [origins, orgs, projects, environments, credentials, modes, targets]

section Box
variable {aead : Aead} {keys : StateKeys} {box : Box}

structure SealedSnapshot.Right (codec : SnapshotCodec) (aead : Aead) (keys : StateKeys)
    (s : SealedSnapshot) : Prop where
  isSealed : ∃ aad framed nonce ciphertext, s.binding.aad = .ok aad ∧
    frame (codec.header aad.canonical) = some framed ∧
    sealRecord aead (keys.key s.binding.scope.storageDir) snapshotKeyID 1
      (.raw (codec.header aad.canonical)) nonce
      (codec.payload s.payload) = some ciphertext ∧ s.container = frameSnapshot framed ciphertext

structure Box.Consistent (codec : SnapshotCodec) (aead : Aead) (keys : StateKeys) (box : Box) :
    Prop where
  seals : ∀ s ∈ box.sealedSoFar, s.Right codec aead keys
  placed : ∀ dir container, (box.stores dir).snapshot = some container →
    ∃ s ∈ box.sealedSoFar, s.container = container
  marked : ∀ b ∈ box.completed, ∃ aad mark, b.aad = .ok aad ∧ (box.stores b.scope.storageDir).mark =
    some mark ∧ aad.issuedAt ≤ mark.issuedAt

variable {key container : Bytes} {store : SnapshotStore} {binding : SnapshotBinding}
  {payload : SnapshotPayload} {mark : HighWaterMark}

theorem prepareSnapshot_eq_ok
    (prepared : prepareSnapshot codec aead key nonce store binding payload =
      .ok (container, mark)) :
    ∃ aad framed ciphertext, binding.aad = .ok aad ∧ frame
      (codec.header aad.canonical) = some framed ∧
      checkMark store.mark aad.issuedAt (codec.digest (codec.header aad.canonical)) = .ok () ∧
      sealRecord aead key snapshotKeyID 1 (.raw (codec.header aad.canonical)) nonce
        (codec.payload payload) = some ciphertext ∧
      container = frameSnapshot framed ciphertext ∧
      mark = { issuedAt := aad.issuedAt, digest := codec.digest (codec.header aad.canonical) } := by
  obtain ⟨aad, isAAD, prepared⟩ := bind_eq_ok.mp prepared
  obtain ⟨framed, isFrame, prepared⟩ := bind_eq_ok.mp prepared
  obtain ⟨⟨⟩, checked, prepared⟩ := bind_eq_ok.mp prepared
  obtain ⟨ciphertext, isSealed, prepared⟩ := bind_eq_ok.mp prepared
  cases prepared
  exact ⟨aad, framed, ciphertext, liftBinding_eq_ok isAAD, orError_eq_ok isFrame, checked,
    orError_eq_ok isSealed, rfl, rfl⟩

theorem checkMark_eq_ok {issuedAt : Int} {digest : String}
    (checked : checkMark (some mark) issuedAt digest = .ok ()) :
    mark.issuedAt ≤ issuedAt := by
  unfold checkMark at checked
  dsimp only at checked
  split at checked
  · cases checked
  · omega

section
variable (consistent : box.Consistent codec aead keys)
include consistent

theorem Box.Consistent.place (dir : String) {s : SealedSnapshot}
    (inSeals : s ∈ box.sealedSoFar) (isContainer : s.container = container) :
    Box.Consistent codec aead keys { box with
      stores := update box.stores dir { box.stores dir with snapshot := some container } } := by
  refine ⟨consistent.seals, fun dir' container' found => ?_, fun b mem => ?_⟩
  · by_cases here : dir' = dir
    · subst here
      simp only [update_self] at found
      exact ⟨s, inSeals, isContainer.trans (Option.some.inj found)⟩
    · simp only [update_of_ne here] at found
      exact consistent.placed dir' container' found
  obtain ⟨aad, mark, isAAD, isMark, older⟩ := consistent.marked b mem
  refine ⟨aad, mark, isAAD, ?_, older⟩
  by_cases here : b.scope.storageDir = dir
  · subst here
    simpa only [update_self] using isMark
  · simpa only [update_of_ne here] using isMark

theorem Box.Consistent.sealed (s : SealedSnapshot) (right : s.Right codec aead keys) :
    Box.Consistent codec aead keys { box with sealedSoFar := s :: box.sealedSoFar } := by
  refine ⟨fun other mem => ?_, fun dir container found => ?_, consistent.marked⟩
  · rcases mem_cons.mp mem with rfl | old
    · exact right
    · exact consistent.seals other old
  · obtain ⟨other, old, isContainer⟩ := consistent.placed dir container found
    exact ⟨other, mem_cons_of_mem s old, isContainer⟩

theorem Box.Consistent.save (binding : SnapshotBinding) (payload : SnapshotPayload)
    (nonce : Bytes) (reach : SaveReach) :
    (box.save codec aead keys binding payload nonce reach).Consistent codec aead keys := by
  unfold Box.save
  dsimp only
  split
  · exact consistent
  rename_i container mark prepared
  obtain ⟨aad, framed, ciphertext, isAAD, isFrame, checked, isSealed, rfl, isMarked⟩ :=
    prepareSnapshot_eq_ok prepared
  have sameIssue : mark.issuedAt = aad.issuedAt := congrArg HighWaterMark.issuedAt isMarked
  let s : SealedSnapshot := { binding, payload, container := frameSnapshot framed ciphertext }
  have onward := consistent.sealed s ⟨aad, framed, nonce, ciphertext, isAAD, isFrame, isSealed, rfl⟩
  cases reach with
  | beforeSnapshot => exact onward
  | beforeMark => exact onward.place _ (.head _) rfl
  | complete =>
    have placed := onward.place binding.scope.storageDir (.head _) rfl
    refine ⟨placed.seals, fun dir container found => ?_, fun b mem => ?_⟩
    · refine placed.placed dir container ?_
      by_cases here : dir = binding.scope.storageDir
      · subst here
        simpa only [update_self] using found
      · simpa only [update_of_ne here] using found
    rcases mem_cons.mp mem with rfl | old
    · exact ⟨aad, mark, isAAD, by simp only [update_self], sameIssue.ge⟩
    obtain ⟨aad', mark', isAAD', isMark, older⟩ := consistent.marked b old
    by_cases here : b.scope.storageDir = binding.scope.storageDir
    · -- the mark is raised, for the save has not been refused
      rw [here] at isMark
      rw [isMark] at checked
      refine ⟨aad', mark, isAAD', by simp only [here, update_self], ?_⟩
      rw [sameIssue]
      exact older.trans (checkMark_eq_ok checked)
    · refine ⟨aad', mark', isAAD', ?_, older⟩
      simpa only [update_of_ne here] using isMark

theorem Box.Consistent.act (act : BoxAct) :
    (box.act codec aead keys act).Consistent codec aead keys := by
  cases act with
  | save binding payload nonce reach => exact consistent.save binding payload nonce reach
  | replace dir =>
    unfold Box.act
    dsimp only
    split
    · rename_i known
      obtain ⟨_, inSeals, isContainer⟩ := mem_map.mp (contains_iff_mem.mp known)
      exact consistent.place dir inSeals isContainer
    · exact consistent

theorem Box.Consistent.after (acts : List BoxAct) :
    (boxAfter codec aead keys box acts).Consistent codec aead keys := by
  induction acts generalizing box with
  | nil => exact consistent
  | cons act _ ih => exact ih (consistent.act act)

end

theorem Box.consistent_fresh : Box.fresh.Consistent codec aead keys :=
  ⟨nofun, fun _ _ found => (by cases found), nofun⟩

theorem loadSnapshot_eq_ok {expect : SnapshotBinding} {now maxAge : Int}
    (loaded : loadSnapshot codec aead key store expect now maxAge = .ok (payload, binding)) :
    ∃ record header ciphertext aad plaintext, store.snapshot = some record ∧
      unframeSnapshot record = some (header, ciphertext) ∧
      parseSnapshotBinding codec expect.scope.storageDir header = .ok binding ∧
        contextMismatch binding.scope expect.scope = none ∧
      binding.aad = .ok aad ∧ checkMark store.mark aad.issuedAt (codec.digest header) = .ok () ∧
      now ≤ aad.expiresAt ∧ now ≤ aad.issuedAt + maxAge ∧
      openRecord aead key snapshotKeyID 1 (.raw header) ciphertext = .ok plaintext ∧
        codec.parsePayload plaintext = some payload := by
  obtain ⟨record, isRecord, loaded⟩ := bind_eq_ok.mp loaded
  obtain ⟨⟨header, ciphertext⟩, isFramed, loaded⟩ := bind_eq_ok.mp loaded
  obtain ⟨_, isParsed, loaded⟩ := bind_eq_ok.mp loaded
  split at loaded
  · cases loaded
  rename_i matching
  obtain ⟨aad, isAAD, loaded⟩ := bind_eq_ok.mp loaded
  obtain ⟨⟨⟩, checked, loaded⟩ := bind_eq_ok.mp loaded
  obtain ⟨fresh, loaded⟩ := unless_eq_ok.mp loaded
  split at loaded
  · cases loaded
  rename_i plaintext isOpened
  obtain ⟨_, isPayload, loaded⟩ := bind_eq_ok.mp loaded
  cases loaded
  have bounds := le_min_iff.mp (Int.not_lt.mp fresh)
  exact ⟨record, header, ciphertext, aad, plaintext, orError_eq_ok isRecord, orError_eq_ok isFramed,
    isParsed, matching,
    liftBinding_eq_ok isAAD, checked, bounds.1, bounds.2, isOpened, orError_eq_ok isPayload⟩

/-- A snapshot that loads was sealed for the same scope; it is not older than any completed save,
and not used after its time. -/
theorem loaded_snapshot_sound (codec : SnapshotCodec) (aead : Aead) (keys : StateKeys)
    (acts : List BoxAct) {expect binding : SnapshotBinding} {now maxAge : Int}
    {payload : SnapshotPayload} (loaded : loadSnapshot codec aead (keys.key expect.scope.storageDir)
      ((boxAfter codec aead keys Box.fresh acts).stores expect.scope.storageDir) expect now maxAge =
      .ok (payload, binding)) :
    ∃ s ∈ (boxAfter codec aead keys Box.fresh acts).sealedSoFar, s.payload = payload ∧
      s.binding.scope = expect.scope ∧
      ∃ aad, s.binding.aad = .ok aad ∧ binding.aad = .ok aad ∧
        (∀ b ∈ (boxAfter codec aead keys Box.fresh acts).completed, b.scope.storageDir =
          expect.scope.storageDir → ∀ aad', b.aad = .ok aad' → aad'.issuedAt ≤ aad.issuedAt) ∧
        now ≤ aad.expiresAt ∧ now ≤ aad.issuedAt + maxAge := by
  have consistent : (boxAfter codec aead keys Box.fresh acts).Consistent codec aead keys :=
    Box.consistent_fresh.after acts
  generalize boxAfter codec aead keys Box.fresh acts = box at loaded consistent
  obtain ⟨record, header, ciphertext, aad, plaintext, isRecord, isFramed, isParsed, matching, isAAD,
      checked, unexpired, young, isOpened,
    isPayload⟩ := loadSnapshot_eq_ok loaded
  obtain ⟨s, inSeals, rfl⟩ := consistent.placed _ record isRecord
  obtain ⟨_, _, _, _, isAAD', isFrame, isSealed, isContainer⟩ :=
    (consistent.seals s inSeals).isSealed
  -- the header and the ciphertext are those of the seal
  rw [isContainer, unframe_frame isFrame] at isFramed
  cases isFramed
  obtain ⟨sameKey, -, -, -, rfl⟩ := openRecord_eq_ok isSealed isOpened
  have sameDir : expect.scope.storageDir = s.binding.scope.storageDir := keys.apart sameKey
  obtain ⟨scope, sameAAD⟩ := parseSnapshotBinding_header isAAD' isParsed
  rw [sameAAD] at isAAD
  cases isAAD
  rw [codec.parse_payload] at isPayload
  cases isPayload
  refine ⟨s, inSeals, rfl, ?_, aad, isAAD', sameAAD, fun b mem atDir aad'' isAAD'' => ?_,
    unexpired, young⟩
  · have matched := contextMismatch_eq_none matching
    rw [scope] at matched
    rw [← matched, sameDir]
  · obtain ⟨_, _, isKnown, isMark, older⟩ := consistent.marked b mem
    rw [isKnown] at isAAD''
    cases isAAD''
    rw [atDir] at isMark
    rw [isMark] at checked
    exact older.trans (checkMark_eq_ok checked)

/-- What a save has sealed loads, under any mark that lets it through. -/
theorem sealed_snapshot_loads (now maxAge : Int) {expect : SnapshotBinding}
    {mark' : Option HighWaterMark}
    (prepared : prepareSnapshot codec aead key nonce store binding payload = .ok (container, mark))
    (nonceSize : nonce.length = nonceSizeX) (sameScope : expect.scope = binding.scope)
    (isAAD : binding.aad = .ok aad) (unexpired : now ≤ aad.expiresAt)
    (young : now ≤ aad.issuedAt + maxAge)
    (passes : checkMark mark' aad.issuedAt (codec.digest (codec.header aad.canonical)) = .ok ()) :
    ∃ loaded, loadSnapshot codec aead key { snapshot := some container, mark := mark' } expect now
      maxAge = .ok (payload, loaded) := by
  obtain ⟨_, _, ciphertext, isAAD', isFrame, -, isSealed, rfl, rfl⟩ :=
    prepareSnapshot_eq_ok prepared
  rw [isAAD] at isAAD'
  cases isAAD'
  obtain ⟨parsed, isParsed⟩ := parseSnapshotBinding_ok codec isAAD
  obtain ⟨scope, sameAAD⟩ := parseSnapshotBinding_header isAAD isParsed
  have matching : contextMismatch parsed.scope expect.scope = none := by
    rw [scope, sameScope]
    simp [contextMismatch]
  have inTime : ¬ min aad.expiresAt (aad.issuedAt + maxAge) < now := by omega
  refine ⟨parsed, ?_⟩
  refine bind_eq_ok.mpr ⟨_, rfl, bind_eq_ok.mpr ⟨(codec.header aad.canonical, ciphertext), ?_,
    bind_eq_ok.mpr ⟨parsed, ?_, ?_⟩⟩⟩
  · rw [unframe_frame isFrame]
    rfl
  · rw [sameScope]
    exact isParsed
  · rw [matching]
    refine bind_eq_ok.mpr ⟨aad, congrArg liftBinding sameAAD, bind_eq_ok.mpr ⟨(), passes, ?_⟩⟩
    rw [if_neg inTime, openRecord_sealRecord isSealed nonceSize]
    refine bind_eq_ok.mpr ⟨payload, ?_, rfl⟩
    rw [codec.parse_payload]
    rfl

end Box

/-! Two saves, the second of which stops between its two files. -/

def plainHeader (aad : SnapshotAAD) : Bytes :=
  field aad.instanceOrigin ++
    (field aad.orgID ++ (field aad.projectID ++ (field aad.environmentID ++
    (field aad.credentialID ++ (field aad.credentialFingerprint ++ (uvarint aad.configOnly.toNat ++
    (counted field aad.targetNames ++ (varint aad.pinnedRevision ++ (field aad.changeToken ++
    (counted field aad.projection ++ (varint aad.issuedAt ++ (varint aad.expiresAt ++ []))))))))))))

theorem plainHeader_injective : Function.Injective plainHeader := by
  rintro ⟨_, _, _, _, _, _, mode, _⟩ ⟨_, _, _, _, _, _, mode', _⟩ same
  obtain ⟨rfl, same⟩ := field_append_inj same
  obtain ⟨rfl, same⟩ := field_append_inj same
  obtain ⟨rfl, same⟩ := field_append_inj same
  obtain ⟨rfl, same⟩ := field_append_inj same
  obtain ⟨rfl, same⟩ := field_append_inj same
  obtain ⟨rfl, same⟩ := field_append_inj same
  obtain ⟨modes, same⟩ := uvarint_append_inj same
  obtain ⟨rfl, same⟩ := counted_append_inj (fun _ _ _ _ => field_append_inj) same
  obtain ⟨rfl, same⟩ := varint_append_inj same
  obtain ⟨rfl, same⟩ := field_append_inj same
  obtain ⟨rfl, same⟩ := counted_append_inj (fun _ _ _ _ => field_append_inj) same
  obtain ⟨rfl, same⟩ := varint_append_inj same
  obtain ⟨rfl, -⟩ := varint_append_inj same
  cases mode <;> cases mode' <;> first | rfl | cases modes

def plainRow (row : SnapshotRow) : Bytes :=
  field row.name ++ (uvarint row.keyID ++ (uvarint row.classification.ctorIdx ++ field row.value))

theorem plainRow_append_inj (a b : SnapshotRow) (u v : Bytes)
    (same : plainRow a ++ u = plainRow b ++ v) : a = b ∧ u = v := by
  obtain ⟨_, _, classification, _⟩ := a
  obtain ⟨_, _, classification', _⟩ := b
  simp only [plainRow, append_assoc] at same
  obtain ⟨rfl, afterName⟩ := field_append_inj same
  obtain ⟨rfl, afterKey⟩ := uvarint_append_inj afterName
  obtain ⟨classes, afterClass⟩ := uvarint_append_inj afterKey
  obtain ⟨rfl, rfl⟩ := field_append_inj afterClass
  cases classification <;> cases classification' <;> first | exact ⟨rfl, rfl⟩ | cases classes

def plainStamp (stamp : String × String) : Bytes := field stamp.1 ++ field stamp.2

theorem plainStamp_append_inj (a b : String × String) (u v : Bytes)
    (same : plainStamp a ++ u = plainStamp b ++ v) : a = b ∧ u = v := by
  simp only [plainStamp, append_assoc] at same
  obtain ⟨names, same⟩ := field_append_inj same
  obtain ⟨stamps, rest⟩ := field_append_inj same
  exact ⟨Prod.ext names stamps, rest⟩

def plainPayload (payload : SnapshotPayload) : Bytes :=
  counted plainRow payload.rows ++ (counted plainStamp payload.generationStamps ++ [])

theorem plainPayload_injective : Function.Injective plainPayload := by
  rintro ⟨⟩ ⟨⟩ same
  obtain ⟨rfl, same⟩ := counted_append_inj plainRow_append_inj same
  obtain ⟨rfl, -⟩ := counted_append_inj plainStamp_append_inj same
  rfl

noncomputable def plainCodec : SnapshotCodec where
  header := plainHeader
  parseHeader := Function.partialInv plainHeader
  parse_header := Function.partialInv_left plainHeader_injective
  payload := plainPayload
  parsePayload := Function.partialInv plainPayload
  parse_payload := Function.partialInv_left plainPayload_injective
  digest := fun _ => ""

def namedKeys : StateKeys where
  key := utf8
  apart := utf8_inj

def savedScope : SnapshotScope := ⟨"d", "i", "o", "p", "e", "f", false, ["web"]⟩

def savedDelivery (issuedAt : Int) : SnapshotDelivery := ⟨"c", 3, "t", ["config"], issuedAt, 9⟩

def earlierBinding : SnapshotBinding where
  scope := savedScope
  delivery := some (savedDelivery 2)
  scopeCanonical := ⟨savedScope, by decide +kernel⟩
  deliveryCanonical := fun d isDelivery => ⟨savedDelivery 2, by cases isDelivery; decide +kernel⟩

def laterBinding : SnapshotBinding where
  scope := savedScope
  delivery := some (savedDelivery 4)
  scopeCanonical := ⟨savedScope, by decide +kernel⟩
  deliveryCanonical := fun d isDelivery => ⟨savedDelivery 4, by cases isDelivery; decide +kernel⟩

def savedPayload (value : String) : SnapshotPayload := ⟨[⟨"A", 4, .config, value⟩], [("web", "s")]⟩

def savedNonce : Bytes := replicate nonceSizeX 7

/-- What the code has passed before it writes the first of the two files. -/
theorem prepareSnapshot_of {store : SnapshotStore} {binding : SnapshotBinding} (aad : SnapshotAAD)
    {payload : SnapshotPayload} {framed ciphertext : Bytes} (isAAD : binding.aad = .ok aad)
    (isFrame : frame (plainHeader aad.canonical) = some framed)
    (isSealed : sealRecord transparentAead (namedKeys.key "d") snapshotKeyID 1
      (.raw (plainHeader aad.canonical)) savedNonce (plainPayload payload) = some ciphertext)
    (passes : checkMark store.mark aad.issuedAt "" = .ok ()) :
    prepareSnapshot plainCodec transparentAead
      (namedKeys.key "d") savedNonce store binding payload =
      .ok (frameSnapshot framed ciphertext, ⟨aad.issuedAt, ""⟩) := by
  refine bind_eq_ok.mpr ⟨aad, congrArg liftBinding isAAD, bind_eq_ok.mpr ⟨framed,
    congrArg (orError .framing) isFrame, bind_eq_ok.mpr ⟨(), passes, ?_⟩⟩⟩
  exact bind_eq_ok.mpr ⟨ciphertext, congrArg (orError .seal) isSealed, rfl⟩

def interruptedSaves : List BoxAct :=
  [.save earlierBinding (savedPayload "v") savedNonce .complete,
    .save laterBinding (savedPayload "w") savedNonce .beforeMark]

theorem loaded_snapshot_sound_interrupted :
    ∃ binding, loadSnapshot plainCodec transparentAead (namedKeys.key "d")
        ((boxAfter plainCodec transparentAead namedKeys Box.fresh interruptedSaves).stores "d")
        laterBinding 5 100 = .ok (savedPayload "w", binding) ∧
      ∃ aad, binding.aad = .ok aad ∧ 2 ≤ aad.issuedAt ∧ 5 ≤ aad.expiresAt := by
  obtain ⟨first, preparedFirst⟩ : ∃ first, prepareSnapshot plainCodec transparentAead
      (namedKeys.key "d") savedNonce {} earlierBinding (savedPayload "v") = .ok (first, ⟨2, ""⟩) :=
    ⟨_, prepareSnapshot_of (snapshotAAD savedScope (savedDelivery 2)) rfl
      (if_pos (by decide +kernel)) rfl rfl⟩
  obtain ⟨second, preparedSecond⟩ : ∃ second, prepareSnapshot plainCodec transparentAead
      (namedKeys.key "d") savedNonce { snapshot := some first, mark := some ⟨2, ""⟩ } laterBinding
      (savedPayload "w") = .ok (second, ⟨4, ""⟩) :=
    ⟨_, prepareSnapshot_of (snapshotAAD savedScope (savedDelivery 4)) rfl
      (if_pos (by decide +kernel)) rfl rfl⟩
  obtain ⟨binding, loads⟩ := sealed_snapshot_loads 5 100 preparedSecond (by decide)
    (rfl : laterBinding.scope = _) rfl (by decide) (by decide)
    (rfl : checkMark (some ⟨2, ""⟩) 4 "" = .ok ())
  have saved : Box.save plainCodec transparentAead namedKeys Box.fresh earlierBinding
      (savedPayload "v") savedNonce .complete =
      { stores := update (fun _ => {}) "d" { snapshot := some first, mark := some ⟨2, ""⟩ }
        sealedSoFar := [⟨earlierBinding, savedPayload "v", first⟩]
        completed := [earlierBinding] } := by
    unfold Box.save
    dsimp only
    rw [show Box.fresh.stores earlierBinding.scope.storageDir = {} from rfl,
      show earlierBinding.scope.storageDir = "d" from rfl, preparedFirst]
    rfl
  have boxed : boxAfter plainCodec transparentAead namedKeys Box.fresh interruptedSaves =
      { stores := update (update (fun _ => {}) "d" { snapshot := some first, mark := some ⟨2, ""⟩ })
          "d" { snapshot := some second, mark := some ⟨2, ""⟩ }
        sealedSoFar :=
          [⟨laterBinding, savedPayload "w", second⟩, ⟨earlierBinding, savedPayload "v", first⟩]
        completed := [earlierBinding] } := by
    rw [boxAfter, interruptedSaves, foldl_cons, foldl_cons, foldl_nil, Box.act, Box.act, saved]
    unfold Box.save
    dsimp only
    rw [show laterBinding.scope.storageDir = "d" from rfl, update_self, preparedSecond]
  have loaded : loadSnapshot plainCodec transparentAead (namedKeys.key "d")
      ((boxAfter plainCodec transparentAead namedKeys Box.fresh interruptedSaves).stores "d")
      laterBinding 5 100 = .ok (savedPayload "w", binding) := by
    rw [boxed]
    dsimp only
    rw [update_self]
    exact loads
  refine ⟨binding, loaded, ?_⟩
  obtain ⟨_, -, -, -, aad, -, isAAD, atLeast, unexpired, -⟩ :=
    @loaded_snapshot_sound plainCodec transparentAead namedKeys interruptedSaves
      laterBinding binding 5
      100 (savedPayload "w") loaded
  refine ⟨aad, isAAD, atLeast earlierBinding ?_ rfl _ rfl, unexpired⟩
  rw [boxed]
  exact .head _

end Hikyo.Compose
