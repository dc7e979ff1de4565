import Ekumidayomi.Auth.Audited

/-!
# Every challenge is announced once

A challenge and the event that requests its mail are committed together: in every run of the
identity services each challenge has exactly one event in the outbox, each commit brings as many
events as challenges, one for each, and no two events share an identifier (`challenges_announced`).
-/

namespace Ekumidayomi

open Transact

/-- The events that the writes add, the first one first. -/
def events : List Op → List DomainEvent
  | [] => []
  | .addEvent event :: ops => events ops ++ [event]
  | _ :: ops => events ops

theorem mem_events {ops : List Op} {event : DomainEvent} :
    event ∈ events ops ↔ .addEvent event ∈ ops := by
  induction ops with
  | nil => simp [events]
  | cons op ops ih => cases op <;> simp [events, ih, or_comm]

theorem outbox_applyAll {sv : Services} (ops : List Op) (db : Db) :
    Db.outbox ((schema sv).applyAll ops db) = db.outbox ++ events ops := by
  induction ops with
  | nil => exact (List.append_nil _).symm
  | cons op ops ih =>
    rw [Schema.applyAll_cons]
    cases op with
    | addEvent event =>
      show Db.outbox ((schema sv).applyAll ops db) ++ [event] = _
      rw [ih, events, List.append_assoc]
    | _ => exact ih

/-- A challenge that was inserted is there unless it was deleted. -/
theorem applyAll_challenge_of_insert {sv : Services} {ops : List Op} {db : Db} {row : EmailChallenge}
    (hrow : .insertChallenge row ∈ ops)
    (hkept : ∀ r, .deleteChallenge r ∈ ops → r.id ≠ row.id) :
    ∃ x, Db.challenge ((schema sv).applyAll ops db) row.id = some x := by
  induction ops with
  | nil => cases hrow
  | cons op ops ih =>
    have hkept' : ∀ r, .deleteChallenge r ∈ ops → r.id ≠ row.id :=
      fun r hr => hkept r (List.mem_cons_of_mem _ hr)
    rcases List.mem_cons.1 hrow with rfl | hrow
    · show ∃ x, Db.challenge (Op.apply (.insertChallenge row) _) row.id = some x
      rw [Db.challenge, Op.apply, Store.get_insert, if_pos rfl]
      exact Option.isSome_iff_exists.1 (by simp)
    · obtain ⟨y, hy⟩ := ih hrow hkept'
      rcases @Db.challenge_apply_of_some op _ _ _ hy with hx | ⟨r, rfl, hid⟩
      · exact hx
      · exact absurd hid (hkept r List.mem_cons_self)

theorem DomainEvent.Announces.congr {event : DomainEvent} {row x : EmailChallenge}
    (h : event.Announces row) (hid : row.id = x.id) (hcreated : row.createdAt = x.createdAt) :
    event.Announces x :=
  { h with
    aggregateId := h.aggregateId.trans hid
    occurredAt := h.occurredAt.trans hcreated
    payload := hid ▸ h.payload }

/-- Each challenge has its event, and events differ in their identifiers and in what they
announce. -/
structure Db.Announced (db : Db) : Prop where
  challenge : ∀ {id x}, db.challenge id = some x → ∃ event ∈ db.outbox, event.Announces x
  eventIds : (db.outbox.map (·.eventId)).Nodup
  aggregateIds : (db.outbox.map (·.aggregateId)).Nodup

/-- The events announce the challenges that are in `db'` and not in `db`, one each. -/
structure Announces (db db' : Db) (new : List DomainEvent) : Prop where
  event : ∀ event ∈ new, db.challenge event.aggregateId = none ∧
    ∃ x, db'.challenge event.aggregateId = some x ∧ event.Announces x
  challenge : ∀ {id x}, db.challenge id = none → db'.challenge id = some x →
    ∃ event ∈ new, event.Announces x
  apart : (new.map (·.aggregateId)).Nodup

namespace Ledger

section
variable {sv : Services} {c : Ctx (schema sv)} {db : Db}

/-- The events of a transaction have identifiers it has drawn. -/
theorem Closing.event_drawn (h : Closing c db) {event : DomainEvent} (he : event ∈ events c.buf) :
    event.eventId ∈ c.drawn ∧ event.aggregateId ∈ c.drawn := by
  obtain ⟨_, _, heventId, haggregateId, -⟩ := h.evidenced (mem_events.1 he)
  exact ⟨heventId, haggregateId⟩

/-- The events of a transaction differ. -/
theorem events_nodup {ops : List Op} (h : c.BookedFor Account ops) :
    ((events ops).map (·.eventId)).Nodup ∧ ((events ops).map (·.aggregateId)).Nodup := by
  induction ops with
  | nil => exact ⟨.nil, .nil⟩
  | cons op ops ih =>
    obtain ⟨hids, haggregates⟩ := ih h.2
    cases op with
    | addEvent event =>
      obtain ⟨-, -, hapart⟩ := h.1.evidence
      rw [events, List.map_append, List.map_append]
      refine ⟨hids.append (List.nodup_singleton _) ?_, haggregates.append (List.nodup_singleton _) ?_⟩
      · intro id hid hmem
        obtain ⟨e, he, rfl⟩ := List.mem_map.1 hid
        exact (hapart e (mem_events.1 he)).1 (List.mem_singleton.1 hmem)
      · intro id hid hmem
        obtain ⟨e, he, rfl⟩ := List.mem_map.1 hid
        exact (hapart e (mem_events.1 he)).2 (List.mem_singleton.1 hmem)
    | _ => exact ⟨hids, haggregates⟩

/-- A commit announces the challenges that it brings. -/
theorem Closing.announces (h : Closing c db) : Announces db (c.view db) (events c.buf) where
  apart := (events_nodup h.sound.booked).2
  challenge := by
    intro id x h0 hx
    obtain ⟨row, hrow, rfl, -, hcreated⟩ := applyAll_challenge hx
    have hrow := hrow.resolve_right (by rw [h0]; nofun)
    obtain ⟨post, hpost, ⟨event, he, hannounces⟩, -⟩ := h.evidenced hrow
    refine ⟨event, mem_events.2 (hpost _ he), hannounces.congr ?_ hcreated⟩
    exact (Store.key_of_get hx).symm
  event := by
    intro event he
    obtain ⟨row, hrow, hannounces⟩ := h.sound.settled.event event (mem_events.1 he)
    have hfresh := h.fresh hrow List.mem_cons_self
    have h0 : db.challenge row.id = none := by
      by_contra hne
      exact hfresh.1 (.inr (.inr (.inr (.inl hne))))
    rw [hannounces.aggregateId]
    refine ⟨h0, ?_⟩
    -- a challenge that is deleted was read, and this one is new
    obtain ⟨x, hx⟩ := @applyAll_challenge_of_insert sv _ db _ hrow fun r hr hid => by
      obtain ⟨_, _, read, hread, hread'⟩ := h.evidenced hr
      exact hfresh.2 read hread (.inr (.inr (.inr (.inl (hid ▸ hread')))))
    refine ⟨x, hx, ?_⟩
    -- the row may be of another insert, but then the two have one event
    obtain ⟨row', hrow', hid, -, hcreated⟩ := applyAll_challenge hx
    have hrow' := hrow'.resolve_right (by rw [h0]; nofun)
    obtain ⟨post, hpost, ⟨event', he', hannounces'⟩, -⟩ := h.evidenced hrow'
    have heq : event' = event := by
      refine List.inj_on_of_nodup_map (events_nodup h.sound.booked).2
        (mem_events.2 (hpost _ he')) he ?_
      rw [hannounces'.aggregateId, hannounces.aggregateId, hid]
    refine (heq ▸ hannounces').congr ?_ hcreated
    rw [hid]
    exact (Store.key_of_get hx).symm

end

end Ledger

namespace Auth

/-- The events of the outbox are spent, so that no transaction can add one with an identifier that
is there. -/
structure Announced {sv : Services} (s : Sys sv) : Prop where
  db : s.db.Announced
  spent : ∀ event ∈ s.db.outbox, s.Spent event.eventId ∧ s.Spent event.aggregateId

section
variable {sv : Services} {settings : AuthSettings} {s₀ m m' : Sys sv} {tr : List (Act sv)}
  {a : Act sv} {i : Nat}

theorem Announced.commit (h0 : Initial s₀) (hrun : Run sv settings s₀ tr m)
    (hstep : Step sv settings m (.commit i) m') (h : Announced m) : Announced m' := by
  obtain ⟨t, ht, hclosing, hdb⟩ := Ledger.closing h0 hrun hstep
  have hgood : Good sv settings m := good_of_run h0 hrun
  have hmem := List.mem_of_getElem? ht
  have hout : m'.db.outbox = m.db.outbox ++ events t.ctx.buf := by
    rw [hdb]
    exact outbox_applyAll t.ctx.buf m.db
  have hnew := Ledger.events_nodup hclosing.sound.booked
  have hannounces := hclosing.announces
  -- what the transaction has drawn is not in the outbox yet
  have hapart : ∀ event ∈ m.db.outbox,
      event.eventId ∉ t.ctx.drawn ∧ event.aggregateId ∉ t.ctx.drawn :=
    fun event he => ⟨(h.spent event he).1.2 t hmem, (h.spent event he).2.2 t hmem⟩
  refine ⟨⟨?_, ?_, ?_⟩, ?_⟩
  · intro id x hx
    rw [hdb] at hx
    rw [hout]
    cases hold : m.db.challenge id with
    | none =>
      obtain ⟨event, he, hx⟩ := hannounces.challenge hold hx
      exact ⟨event, List.mem_append_right _ he, hx⟩
    | some y =>
      obtain ⟨row, hrow, hid, -, hcreated⟩ := applyAll_challenge hx
      rcases hrow with hrow | hrow
      · -- a challenge that is there is not made again
        refine absurd (.inr (.inr (.inr (.inl ?_)))) (hclosing.fresh hrow List.mem_cons_self).1
        rw [hid, hold]
        nofun
      · obtain ⟨event, he, hevent⟩ := h.db.challenge hrow
        refine ⟨event, List.mem_append_left _ he, hevent.congr ?_ hcreated⟩
        exact hid.trans (Store.key_of_get hx).symm
  · rw [hout, List.map_append]
    refine h.db.eventIds.append hnew.1 fun id hid hid' => ?_
    obtain ⟨event, he, rfl⟩ := List.mem_map.1 hid
    obtain ⟨event', he', heq⟩ := List.mem_map.1 hid'
    exact (hapart event he).1 (heq ▸ (hclosing.event_drawn he').1)
  · rw [hout, List.map_append]
    refine h.db.aggregateIds.append hnew.2 fun id hid hid' => ?_
    obtain ⟨event, he, rfl⟩ := List.mem_map.1 hid
    obtain ⟨event', he', heq⟩ := List.mem_map.1 hid'
    exact (hapart event he).2 (heq ▸ (hclosing.event_drawn he').2)
  · intro event he
    rw [hout] at he
    rcases List.mem_append.1 he with he | he
    · exact ⟨hstep.spent (h.spent event he).1, hstep.spent (h.spent event he).2⟩
    · obtain ⟨heventId, haggregateId⟩ := hclosing.event_drawn he
      exact ⟨Transact.Step.commit_spent hgood ht hstep heventId,
        Transact.Step.commit_spent hgood ht hstep haggregateId⟩

theorem Announced.run (h0 : Initial s₀) (h : Announced s₀) (hrun : Run sv settings s₀ tr m) :
    Announced m := by
  induction hrun with
  | nil => exact h
  | @snoc m m' tr a hrun hstep ih =>
    by_cases hc : ∃ i, a = .commit i
    · obtain ⟨i, rfl⟩ := hc
      exact Announced.commit h0 hrun hstep ih
    · have hdb := hstep.db_eq fun i hi => hc ⟨i, hi⟩
      refine ⟨hdb ▸ ih.db, fun event he => ?_⟩
      rw [hdb] at he
      exact ⟨hstep.spent (ih.spent event he).1, hstep.spent (ih.spent event he).2⟩

end

/-- **Every challenge is announced once.** In every run from an initial state, over any interleaving
of the calls: each challenge has exactly one event in the outbox, and no two events share an
identifier; and each commit adds events at the end of the outbox, which announce the challenges that
it brings and no others, one each. -/
theorem challenges_announced (sv : Services) (settings : AuthSettings) {s₀ m : Sys sv}
    {tr : List (Act sv)} (h0 : Initial s₀) (hdb : s₀.db.Announced)
    (hdrawn : ∀ event ∈ s₀.db.outbox, event.eventId ∈ s₀.drawn ∧ event.aggregateId ∈ s₀.drawn)
    (hrun : Run sv settings s₀ tr m) :
    (m.db.outbox.map (·.eventId)).Nodup ∧
    (∀ {id x}, m.db.challenge id = some x → ∃ event ∈ m.db.outbox, event.Announces x ∧
      ∀ e ∈ m.db.outbox, e.aggregateId = id → e = event) ∧
    ∀ {i m'}, Step sv settings m (.commit i) m' →
      ∃ new, m'.db.outbox = m.db.outbox ++ new ∧ Announces m.db m'.db new := by
  have hspent : ∀ {id}, id ∈ s₀.drawn → s₀.Spent id := by
    intro id hid
    refine ⟨hid, fun t ht => ?_⟩
    rw [h0.threads] at ht
    cases ht
  have h := Announced.run h0 ⟨hdb, fun event he =>
    ⟨hspent (hdrawn event he).1, hspent (hdrawn event he).2⟩⟩ hrun
  refine ⟨h.db.eventIds, fun {id x} hx => ?_, fun {i m'} hstep => ?_⟩
  · obtain ⟨event, he, hannounces⟩ := h.db.challenge hx
    refine ⟨event, he, hannounces, fun e he' hid => ?_⟩
    refine List.inj_on_of_nodup_map h.db.aggregateIds he' he ?_
    rw [hid, hannounces.aggregateId]
    exact (Store.key_of_get hx).symm
  · obtain ⟨t, -, hclosing, hdb'⟩ := Ledger.closing h0 hrun hstep
    refine ⟨events t.ctx.buf, ?_, ?_⟩
    · rw [hdb']
      exact outbox_applyAll t.ctx.buf m.db
    · rw [hdb']
      exact hclosing.announces

end Auth

namespace AuthFixture

/-- The steps of a request for a code, up to its commit. -/
def requestActs : List (Auth.Act services) :=
  .start (.beginRegistration address (some "c-1")) ::
    [.draw 0 31, .advance 0, .draw 0 32] ++ steps 0 6 ++ [.draw 0 33, .draw 0 34] ++ steps 0 2 ++
    [.draw 0 35] ++ steps 0 5

/-- The system before the commit. -/
def requesting : Auth.Sys services :=
  ((system {}).execAll (Auth.code services keyed) requestActs).getD (system {})

/-- The system after it. -/
def requested : Auth.Sys services :=
  (requesting.exec (Auth.code services keyed) (.commit 0)).getD requesting

theorem requesting_run : Auth.Run services keyed (system {}) requestActs requesting :=
  Sys.run_of_isSome (by decide +kernel)

theorem requested_step : Auth.Step services keyed requesting (.commit 0) requested :=
  Sys.step_of_isSome (by decide +kernel)

end AuthFixture

/-- The commit of her request brings the event of her challenge. -/
theorem Auth.challenges_announced_requested :
    ∃ new, AuthFixture.requested.db.outbox = AuthFixture.requesting.db.outbox ++ new ∧
      Announces AuthFixture.requesting.db AuthFixture.requested.db new := by
  have h0 : Auth.Initial (AuthFixture.system {}) := AuthFixture.system_initial (by decide)
  have hannounced : Db.Announced {} :=
    { challenge := nofun
      eventIds := .nil
      aggregateIds := .nil }
  have hdrawn : ∀ event ∈ (AuthFixture.system {}).db.outbox,
      event.eventId ∈ (AuthFixture.system {}).drawn ∧
        event.aggregateId ∈ (AuthFixture.system {}).drawn := by
    intro event he
    exact absurd he List.not_mem_nil
  exact (Auth.challenges_announced AuthFixture.services AuthFixture.keyed h0 hannounced hdrawn
    AuthFixture.requesting_run).2.2 AuthFixture.requested_step

end Ekumidayomi
