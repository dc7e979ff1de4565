import Ekumidayomi.Outbox.System

/-!
# Lease fencing

A claim token on a row is the fence: `claim` writes a fresh one, `bind` and `finish` only act on a
row that still carries the claim's own. The invariant `Fenced` ties the two fields of a lease to the
claims handed out: a token on a row is that of the newest claim of the row's message, and the lease
beside it is the one that claim was given. From it a claim that was superseded, has expired or was
already finished owns nothing any more (`Fenced.owned_eq_none`), for any order of the transactions
of both repositories and of replay.
-/

namespace Ekumidayomi

/-- What a transaction does to the token and the lease of a row: it keeps both, clears both, or
writes those of the claim it returns. -/
theorem RowMove.token {P : Type} {db : Outbox} {l : Txn P} {row row' : OutboxMessage}
    (h : RowMove db l row row') :
    (row'.claimToken = row.claimToken ∧ row'.leaseExpiresAt = row.leaseExpiresAt) ∨
    (row'.claimToken = none ∧ row'.leaseExpiresAt = none) ∨
    ∃ group eventTypes settings reads c,
      l = .claim group eventTypes settings reads (some c) ∧ c.messageId = row.id ∧
      row'.claimToken = some reads.token ∧
      row'.leaseExpiresAt = some (reads.now + seconds settings.leaseSeconds) := by
  cases h with
  | claim h =>
    cases h with
    | swept => exact .inr (.inl ⟨rfl, rfl⟩)
    | tooOld => exact .inl ⟨rfl, rfl⟩
    | leased => exact .inr (.inr ⟨_, _, _, _, _, rfl, rfl, rfl, rfl⟩)
  | contentChanged | bindExpired | finished | replayed => exact .inr (.inl ⟨rfl, rfl⟩)
  | bound | batchClaimed | published | failed | released => exact .inl ⟨rfl, rfl⟩

namespace Repo

variable {P : Type} {s s' : Repo} {l : Txn P} {c c' : Claim}

/-- What a step does to the claims handed out: nothing, unless it is a claim that returned one. -/
theorem Step.issued (h : Step s l s') : s'.issued = s.issued ∨
    ∃ group eventTypes settings reads c,
      l = .claim group eventTypes settings reads (some c) ∧ reads.token ∉ s.tokens ∧
      LeasedOutboxRepository.claim s.db group eventTypes settings reads =
        .ok (s'.db, some c) ∧
      s'.issued = ⟨c, reads.now + seconds settings.leaseSeconds⟩ :: s.issued := by
  cases h with
  | @claim group eventTypes settings reads db result _ hfresh h =>
    cases result with
    | none => exact .inl rfl
    | some c => exact .inr ⟨group, eventTypes, settings, reads, c, rfl, hfresh, h, rfl⟩
  | _ => exact .inl rfl

theorem Step.issued_mono (h : Step s l s') (hc : s.IsIssued c) : s'.IsIssued c := by
  obtain ⟨lease, hmem, he⟩ := hc
  rcases h.issued with hi | ⟨_, _, _, _, _, -, -, -, hi⟩
  · exact ⟨lease, hi ▸ hmem, he⟩
  · exact ⟨lease, hi ▸ List.mem_cons_of_mem _ hmem, he⟩

/-- The invariant of fencing: keys are distinct, so are the tokens handed out, and a token on a row
is that of the newest claim of its message, beside the lease of that claim. -/
structure Fenced (s : Repo) : Prop where
  keyed : s.db.Keyed
  tokens : s.tokens.Nodup
  held : ∀ {id row t}, s.db.message id = some row → row.claimToken = some t →
    ∃ lease, s.issued.find? (·.claim.messageId = id) = some lease ∧ lease.claim.token = t ∧
      row.leaseExpiresAt = some lease.expiresAt

/-- A table without claims, before any was handed out. -/
structure Initial (s : Repo) : Prop where
  keyed : s.db.Keyed
  issued : s.issued = []
  unclaimed : ∀ row ∈ s.db.messages, row.claimToken = none

theorem Initial.fenced (h : s.Initial) : s.Fenced where
  keyed := h.keyed
  tokens := by simp [Repo.tokens, h.issued]
  held hrow ht := by
    rw [h.unclaimed _ (Table.mem_of_find hrow)] at ht
    cases ht

/-- Every transaction keeps the fence. -/
theorem Step.fenced (h : Step s l s') (hs : s.Fenced) : s'.Fenced where
  keyed := h.keyed hs.keyed
  tokens := by
    rcases h.issued with hi | ⟨_, _, settings, reads, c, -, hfresh, hclaim, hi⟩
    · rw [Repo.tokens, hi]
      exact hs.tokens
    · obtain ⟨row, -, -, -, rfl, -⟩ := claim_eq_some hs.keyed hclaim
      rw [Repo.tokens, hi, List.map_cons, List.nodup_cons]
      exact ⟨hfresh, hs.tokens⟩
  held {id row' t} hrow' ht := by
    rcases h.message_inv hs.keyed hrow' with ⟨row, hrow, hm⟩ | ⟨-, -, hnone, -⟩
    swap
    · rw [hnone] at ht
      cases ht
    -- what is kept on the row was there before, unless the newest claim is now of this message
    have hkept : row'.claimToken = row.claimToken → row'.leaseExpiresAt = row.leaseExpiresAt →
        s'.issued.find? (·.claim.messageId = id) = s.issued.find? (·.claim.messageId = id) →
        ∃ lease, s'.issued.find? (·.claim.messageId = id) = some lease ∧ lease.claim.token = t ∧
          row'.leaseExpiresAt = some lease.expiresAt := by
      intro h1 h2 h3
      rw [h3, h2]
      exact hs.held hrow (h1 ▸ ht)
    rcases h.issued with hi | ⟨group, eventTypes, settings, reads, c, rfl, hfresh, hclaim, hi⟩
    · rcases hm with rfl | hm
      · exact hkept rfl rfl (by rw [hi])
      rcases hm.token with ⟨h1, h2⟩ | ⟨h1, -⟩ | ⟨_, _, _, _, c, rfl, -, -, -⟩
      · exact hkept h1 h2 (by rw [hi])
      · rw [h1] at ht
        cases ht
      · cases h with
        | claim => simp [afterClaim] at hi
    · obtain ⟨row₀, hrow₀, -, -, hc, hleased⟩ := claim_eq_some hs.keyed hclaim
      by_cases hid : id = c.messageId
      · subst hid
        obtain rfl := Option.some.inj (hleased.symm.trans hrow')
        refine ⟨_, by rw [hi, List.find?_cons_of_pos (by simp)], ?_, rfl⟩
        rw [hc]
        exact Option.some.inj ht
      · have hfind : s'.issued.find? (·.claim.messageId = id) =
            s.issued.find? (·.claim.messageId = id) := by
          rw [hi, List.find?_cons_of_neg (by simpa using Ne.symm hid)]
        rcases hm with rfl | hm
        · exact hkept rfl rfl hfind
        rcases hm.token with ⟨h1, h2⟩ | ⟨h1, -⟩ | ⟨_, _, _, _, _, heq, hmid, -, -⟩
        · exact hkept h1 h2 hfind
        · rw [h1] at ht
          cases ht
        · cases heq
          exact absurd ((Table.key_of_find hrow).symm.trans hmid.symm) hid

/-! ## Claims that own nothing any more -/

/-- A later claim of the message was handed out. -/
def Superseded (s : Repo) (c : Claim) : Prop :=
  ∃ newer lease older, s.issued = newer ++ lease :: older ∧
    lease.claim.messageId = c.messageId ∧ ∃ l ∈ older, l.claim = c

/-- The row no longer carries the token of the claim. -/
def Closed (s : Repo) (c : Claim) : Prop :=
  ∀ row, s.db.message c.messageId = some row → row.claimToken ≠ some c.token

/-- A transaction that finished the claim with the token and returned `True`. -/
def appliedTo (token : UUID) : Txn P → Bool
  | .finish _ c _ _ _ _ _ applied => applied && c.token = token
  | _ => false

/-- A call at `calledAt` comes too late for the claim: its lease has expired, its message was
claimed again, or it was already finished by one of the transactions `tr`. -/
def Stale (s : Repo) (tr : List (Txn P)) (c : Claim) (calledAt : Time) : Prop :=
  (∃ l ∈ s.issued, l.claim = c ∧ l.expiresAt ≤ calledAt) ∨ s.Superseded c ∨
    0 < tr.countP (appliedTo c.token)

/-- The owned row of a claim carries its token, and the newest lease of its message is the
claim's. -/
theorem Fenced.owned (hs : s.Fenced) {ownedAt : Time} {row : OutboxMessage}
    (h : LeasedOutboxRepository.owned s.db c ownedAt = some row) :
    s.db.message c.messageId = some row ∧ row.claimToken = some c.token ∧
      ∃ lease, s.issued.find? (·.claim.messageId = c.messageId) = some lease ∧
        lease.claim.token = c.token ∧ ownedAt < lease.expiresAt := by
  obtain ⟨hmem, howns⟩ := owned_eq_some h
  obtain ⟨hid, htok, -, hlease⟩ := owns_iff.1 howns
  have hrow : s.db.message c.messageId = some row := hid ▸ hs.keyed.find hmem
  obtain ⟨lease, hfind, ht, hexp⟩ := hs.held hrow htok
  rw [hexp, after_some] at hlease
  exact ⟨hrow, htok, lease, hfind, ht, of_decide_eq_true hlease⟩

/-- Claims handed out with one token are one claim. -/
theorem Fenced.lease_eq (hs : s.Fenced) {l l' : Lease} (hl : l ∈ s.issued) (hl' : l' ∈ s.issued)
    (h : l.claim.token = l'.claim.token) : l = l' :=
  List.inj_on_of_nodup_map (f := fun l : Lease => l.claim.token) hs.tokens hl hl' h

theorem Fenced.claim_eq (hs : s.Fenced) (hc : s.IsIssued c) (hc' : s.IsIssued c')
    (h : c.token = c'.token) : c = c' := by
  obtain ⟨l, hl, rfl⟩ := hc
  obtain ⟨l', hl', rfl⟩ := hc'
  rw [hs.lease_eq hl hl' h]

/-- A superseded claim is not the newest of its message. -/
theorem Fenced.superseded (hs : s.Fenced) (h : s.Superseded c) {lease : Lease}
    (hfind : s.issued.find? (·.claim.messageId = c.messageId) = some lease) :
    lease.claim.token ≠ c.token := by
  obtain ⟨newer, l, older, hi, hmid, l', hl', rfl⟩ := h
  have hnd : (s.issued.map (·.claim.token)).Nodup := hs.tokens
  -- the newest lease stands no later than `l`, the claim's own lease stands after `l`
  have hfront : lease ∈ newer ++ [l] := by
    have hsome : ((newer ++ [l]).find? (·.claim.messageId = l'.claim.messageId)).isSome := by
      rw [List.find?_isSome]
      exact ⟨l, by simp, by simpa using hmid⟩
    obtain ⟨x, hx⟩ := Option.isSome_iff_exists.1 hsome
    rw [hi, List.append_cons, List.find?_append, hx, Option.some_or] at hfind
    obtain rfl := Option.some.inj hfind
    exact List.mem_of_find?_eq_some hx
  rw [hi, List.append_cons, List.map_append, List.nodup_append] at hnd
  exact hnd.2.2 _ (List.mem_map_of_mem hfront) _ (List.mem_map_of_mem hl')

/-- Once the token is gone from the row it does not come back: a new one is fresh. -/
theorem Step.closed (h : Step s l s') (hs : s.Fenced) (hc : s.IsIssued c) (hcl : s.Closed c) :
    s'.Closed c := by
  intro row' hrow' ht
  rcases h.message_inv hs.keyed hrow' with ⟨row, hrow, hm⟩ | ⟨-, -, hnone, -⟩
  swap
  · rw [hnone] at ht
    cases ht
  rcases hm with rfl | hm
  · exact hcl _ hrow ht
  rcases hm.token with ⟨h1, -⟩ | ⟨h1, -⟩ | ⟨_, _, _, reads, c₁, rfl, -, h1, -⟩
  · exact hcl _ hrow (h1 ▸ ht)
  · rw [h1] at ht
    cases ht
  · rw [h1] at ht
    obtain ⟨lease, hmem, rfl⟩ := hc
    cases h with
    | claim _ hfresh _ =>
      exact hfresh (Option.some.inj ht ▸ List.mem_map_of_mem hmem)

/-- A finish that returns `True` owned the row and took the token off it. -/
theorem finish_eq_true {db db' : Outbox} {group : String} {result : DeliveryOutcome} {delay : Int}
    {ownedAt now : Time} (hk : db.Keyed)
    (h : LeasedOutboxRepository.finish db group c result delay ownedAt now = (db', true)) :
    ∃ row, LeasedOutboxRepository.owned db c ownedAt = some row ∧
      db.message c.messageId = some row ∧ owns c ownedAt row = true ∧
      db'.message c.messageId = some (row.finished c result delay now) := by
  unfold LeasedOutboxRepository.finish at h
  split at h
  · cases h
  rename_i row hown
  obtain ⟨hmem, howns⟩ := owned_eq_some hown
  have hid := (owns_iff.1 howns).1
  have hrow : db.message c.messageId = some row := hid ▸ hk.find hmem
  refine ⟨row, hown, hrow, howns, ?_⟩
  have hmod := Outbox.message_modify_self (·.finished c result delay now) (fun _ => rfl) hrow
  simp only at h
  obtain ⟨rfl, -⟩ := Prod.mk.inj h
  rw [hid]
  split
  · exact hmod
  · exact hmod

/-- The history of a run: no token was finished before it was handed out, and one that was
finished was finished once and is off its row. -/
structure Applied (tr : List (Txn P)) (s : Repo) : Prop where
  fenced : s.Fenced
  unissued : ∀ {t}, t ∉ s.tokens → tr.countP (appliedTo t) = 0
  once : ∀ {c}, s.IsIssued c → tr.countP (appliedTo c.token) ≤ 1
  closed : ∀ {c}, s.IsIssued c → 0 < tr.countP (appliedTo c.token) → s.Closed c

theorem Initial.applied (h : s.Initial) : Applied ([] : List (Txn P)) s where
  fenced := h.fenced
  unissued _ := rfl
  once _ := Nat.zero_le _
  closed _ h := absurd h (Nat.lt_irrefl 0)

theorem mem_tokens : c.token ∈ s.tokens ↔ ∃ l ∈ s.issued, l.claim.token = c.token := by
  simp [Repo.tokens]

theorem IsIssued.token_mem (h : s.IsIssued c) : c.token ∈ s.tokens := by
  obtain ⟨l, hl, rfl⟩ := h
  exact List.mem_map_of_mem hl

/-- A step that finishes a claim finishes one that was handed out, was not finished before, and is
closed afterwards. -/
theorem Applied.finish {tr : List (Txn P)} (hs : Applied tr s) (h : Step s l s') {t : UUID}
    (ha : appliedTo t l = true) :
    ∃ c, s.IsIssued c ∧ c.token = t ∧ tr.countP (appliedTo t) = 0 ∧ s'.Closed c := by
  cases h with
  | @finish group c result delay calledAt ownedAt now applied db hiss _ _ _ h =>
    simp only [appliedTo, Bool.and_eq_true, decide_eq_true_eq] at ha
    obtain ⟨rfl, rfl⟩ := ha
    obtain ⟨row, -, hrow, howns, hrow'⟩ := finish_eq_true hs.fenced.keyed h
    refine ⟨c, hiss, rfl, ?_, ?_⟩
    · by_contra hne
      exact hs.closed hiss (Nat.pos_of_ne_zero hne) _ hrow (owns_iff.1 howns).2.1
    · intro r hr
      rw [hrow'] at hr
      obtain rfl := Option.some.inj hr
      exact fun h => nomatch h
  | _ => cases ha

/-- Every transaction keeps the history of the claims. -/
theorem Applied.step {tr : List (Txn P)} (hs : Applied tr s) (h : Step s l s') :
    Applied (tr ++ [l]) s' where
  fenced := h.fenced hs.fenced
  unissued {t} ht := by
    have hold : t ∉ s.tokens := by
      intro hmem
      refine ht ?_
      rcases h.issued with hi | ⟨_, _, _, _, _, -, -, -, hi⟩
      · rwa [Repo.tokens, hi]
      · rw [Repo.tokens, hi]
        exact List.mem_cons_of_mem _ hmem
    rw [List.countP_append, hs.unissued hold, List.countP_singleton]
    by_cases ha : appliedTo t l = true
    · obtain ⟨c, hc, rfl, -⟩ := hs.finish h ha
      exact absurd hc.token_mem hold
    · simp [ha]
  once {c} hc := by
    rw [List.countP_append, List.countP_singleton]
    by_cases ha : appliedTo c.token l = true
    · obtain ⟨_, -, -, h0, -⟩ := hs.finish h ha
      rw [h0, if_pos ha]
    · rw [if_neg ha, Nat.add_zero]
      by_cases hmem : c.token ∈ s.tokens
      · obtain ⟨lease, hl, ht⟩ := mem_tokens.1 hmem
        rw [← ht]
        exact hs.once ⟨lease, hl, rfl⟩
      · rw [hs.unissued hmem]
        exact Nat.zero_le 1
  closed {c} hc hpos := by
    rw [List.countP_append, List.countP_singleton] at hpos
    by_cases ha : appliedTo c.token l = true
    · obtain ⟨c', hc', ht, -, hcl⟩ := hs.finish h ha
      rwa [(h.fenced hs.fenced).claim_eq hc (h.issued_mono hc') ht.symm]
    · rw [if_neg ha, Nat.add_zero] at hpos
      have hmem : c.token ∈ s.tokens := by
        by_contra hmem
        rw [hs.unissued hmem] at hpos
        exact absurd hpos (Nat.lt_irrefl 0)
      obtain ⟨lease, hl, ht⟩ := mem_tokens.1 hmem
      have hold : s.IsIssued lease.claim := ⟨lease, hl, rfl⟩
      rw [← (h.fenced hs.fenced).claim_eq (h.issued_mono hold) hc ht]
      exact h.closed hs.fenced hold (hs.closed hold (ht ▸ hpos))

/-- A claim that comes too late owns no row. -/
theorem Applied.owned_eq_none {tr : List (Txn P)} (hs : Applied tr s) (hc : s.IsIssued c)
    {calledAt ownedAt : Time} (hle : calledAt ≤ ownedAt) (h : s.Stale tr c calledAt) :
    LeasedOutboxRepository.owned s.db c ownedAt = none := by
  cases hown : LeasedOutboxRepository.owned s.db c ownedAt with
  | none => rfl
  | some row =>
    obtain ⟨hrow, htok, lease, hfind, ht, hlt⟩ := hs.fenced.owned hown
    rcases h with ⟨l, hl, rfl, hexp⟩ | h | h
    · rw [hs.fenced.lease_eq (List.mem_of_find?_eq_some hfind) hl ht] at hlt
      lia
    · exact absurd ht (hs.fenced.superseded h hfind)
    · exact absurd htok (hs.closed hc h _ hrow)

/-- **Lease fencing.** In every state that any interleaving of transactions reaches: at most one
claim of a message passes `owned` at any instant; `bind` and `finish` called with a claim whose
lease has expired, whose message was claimed again or that was already finished return `False` and
leave the tables as they are; and no claim is applied by two finishes. -/
theorem lease_fencing {s₀ : Repo} {tr : List (Txn P)} (h₀ : s₀.Initial)
    (run : Lts.Run Step s₀ tr s) :
    (∀ c c' t, s.IsIssued c → s.IsIssued c' → c.messageId = c'.messageId →
      LeasedOutboxRepository.owned s.db c t ≠ none →
      LeasedOutboxRepository.owned s.db c' t ≠ none → c = c') ∧
    (∀ c calledAt ownedAt now, s.IsIssued c → calledAt ≤ ownedAt → s.Stale tr c calledAt →
      (∀ group fingerprint expiresAt,
        LeasedOutboxRepository.bind s.db group c fingerprint expiresAt ownedAt now =
          if isHex64 fingerprint then .ok (s.db, false) else .error .fingerprint) ∧
      ∀ group result delay,
        LeasedOutboxRepository.finish s.db group c result delay ownedAt now = (s.db, false)) ∧
    ∀ c, s.IsIssued c → tr.countP (appliedTo c.token) ≤ 1 := by
  have hs : Applied tr s := run.history (fun hs h => hs.step h) h₀.applied
  refine ⟨?_, ?_, fun c hc => hs.once hc⟩
  · intro c c' t hc hc' hmid h1 h2
    obtain ⟨row, hrow⟩ := Option.ne_none_iff_exists'.1 h1
    obtain ⟨row', hrow'⟩ := Option.ne_none_iff_exists'.1 h2
    obtain ⟨-, -, lease, hfind, ht, -⟩ := hs.fenced.owned hrow
    obtain ⟨-, -, lease', hfind', ht', -⟩ := hs.fenced.owned hrow'
    rw [hmid, hfind'] at hfind
    obtain rfl := Option.some.inj hfind
    exact hs.fenced.claim_eq hc hc' (ht.symm.trans ht')
  · intro c calledAt ownedAt now hc hle hstale
    have hnone := hs.owned_eq_none hc hle hstale
    refine ⟨fun group fingerprint expiresAt => ?_, fun group result delay => ?_⟩
    · unfold LeasedOutboxRepository.bind
      rw [hnone]
      by_cases hf : isHex64 fingerprint = true <;> simp [hf]
    · unfold LeasedOutboxRepository.finish
      rw [hnone]

/-- The message of the fixture is claimed, its lease runs out and it is claimed again. -/
def takenOver : Repo :=
  { db :=
      { messages := [(Fixture.message.lease 0 default 1).lease (seconds 200) default 2]
        controls := [Fixture.control (seconds 200)] }
    clock := seconds 200
    issued := [⟨Fixture.claim 2 2, seconds 320⟩, ⟨Fixture.claim 1 1, seconds 120⟩] }

/-- The first worker's completion comes after the takeover and is refused. -/
theorem lease_fencing_takenOver :
    LeasedOutboxRepository.finish takenOver.db "auth_email" (Fixture.claim 1 1)
      { kind := .accepted, code := "provider_accepted" } (seconds 1) (seconds 200) (seconds 200) =
      (takenOver.db, false) := by
  have hinit : Fixture.repo.Initial :=
    ⟨by simp [Outbox.Keyed, Table.Keyed, Fixture.repo], rfl,
      by simp [Fixture.repo, Fixture.message]⟩
  have run : Lts.Run (Step (P := Unit)) Fixture.repo
      [.claim "auth_email" [challengeEmailEvent] {} { now := 0, token := 1 }
          (some (Fixture.claim 1 1)),
        .tick (seconds 200),
        .claim "auth_email" [challengeEmailEvent] {} { now := seconds 200, token := 2 }
          (some (Fixture.claim 2 2))] takenOver := by
    have h1 : Step (P := Unit) Fixture.repo _ Fixture.claimedRepo :=
      .claim (le_refl _) (by decide) Fixture.claim_repo
    have h2 : Step (P := Unit) Fixture.claimedRepo (.tick (seconds 200)) _ := .tick (by decide)
    exact ((Lts.Run.nil.snoc h1).snoc h2).snoc (.claim (le_refl _) (by decide) rfl)
  exact ((lease_fencing hinit run).2.1 (Fixture.claim 1 1) (seconds 200) (seconds 200)
    (seconds 200) ⟨_, List.mem_cons_of_mem _ (List.mem_singleton.2 rfl), rfl⟩ (le_refl _)
    (.inl ⟨_, List.mem_cons_of_mem _ (List.mem_singleton.2 rfl), rfl, by decide⟩)).2 _ _ _

end Repo

end Ekumidayomi
