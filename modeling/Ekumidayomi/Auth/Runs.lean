import Ekumidayomi.Auth.Commits

/-!
# Runs of the identity services

Every state of every run is `Good` for the exits of the calls, so that a property of the database is
kept when each exit keeps it (`run_db`).
-/

namespace Ekumidayomi

open Transact

namespace Auth

/-- The system with what every call is known to commit, mark and answer. -/
abbrev Good (sv : Services) (settings : AuthSettings) (s : Sys sv) : Prop :=
  Transact.Good (Commits sv settings) Notes (fun _ _ _ => True) (fun _ => Fails) s

section
variable {sv : Services} {settings : AuthSettings} {s₀ s s' : Sys sv} {tr : List (Act sv)}
  {i : Nat}

theorem Good.start (h0 : Initial s₀) : Good sv settings s₀ := .initial h0.threads h0.admins h0.drawn

theorem Good.forward (hg : Good sv settings s) (hrun : Run sv settings s tr s') :
    Good sv settings s' :=
  Transact.Good.run (code_meets sv settings) hg hrun

theorem good_of_run (h0 : Initial s₀) (hrun : Run sv settings s₀ tr s) : Good sv settings s :=
  (Good.start h0).forward hrun

/-- A commit applies the writes of an exit of its call. -/
theorem commit_exit (hg : Good sv settings s) (hstep : Step sv settings s (.commit i) s') :
    ∃ t, s.threads[i]? = some t ∧ t.ctx.Sees s.db ∧ Commits sv settings t.call t.ctx s.db ∧
      s'.db = t.ctx.view s.db := by
  obtain ⟨t, ht, hcommits, hdb⟩ := Transact.Good.commit hg hstep
  exact ⟨t, ht, (hg.sound i t ht).sees, hcommits, hdb⟩

/-- A commit in a run applies the writes of an exit of its call. -/
theorem commitsIn_exit {m m' : Sys sv} (hg : Good sv settings s)
    (h : CommitsIn sv settings s tr s' m i m') :
    ∃ t, m.threads[i]? = some t ∧ t.ctx.Sees m.db ∧ Commits sv settings t.call t.ctx m.db ∧
      m'.db = t.ctx.view m.db := by
  obtain ⟨tr₁, tr₂, rfl, h1, hstep, -⟩ := h
  exact commit_exit (hg.forward h1) hstep

/-- What every commit keeps of the database, a run keeps. -/
theorem run_db {P : Db → Prop} (hg : Good sv settings s) (hrun : Run sv settings s tr s')
    (hcommit : ∀ {call : Call} {c : Ctx (schema sv)} {db : Db}, db.AdminsVerified → c.Sees db →
      Commits sv settings call c db → P db → P (c.view db))
    (h0 : P s.db) : P s'.db := by
  have hboth : Good sv settings s' ∧ P s'.db := by
    refine hrun.invariant (I := fun s => Good sv settings s ∧ P s.db) ?_ ⟨hg, h0⟩
    rintro s a s' ⟨hg, hP⟩ hstep
    refine ⟨hg.step (code_meets sv settings) hstep, ?_⟩
    by_cases hc : ∃ i, a = .commit i
    · obtain ⟨i, rfl⟩ := hc
      obtain ⟨t, -, hsees, hcommits, hdb⟩ := commit_exit hg hstep
      rw [hdb]
      exact hcommit hg.valid hsees hcommits hP
    · rw [hstep.db_eq fun i hi => hc ⟨i, hi⟩]
      exact hP
  exact hboth.2

/-- The session is the user's, live at `now`, and authenticated at most `limit` seconds before. -/
def LiveSession (s : Sys sv) (userId sessionId : UUID) (limit : Nat) (now : Time) : Prop :=
  ∃ x, s.db.session sessionId = some x ∧ x.userId = userId ∧ x.revokedAt = none ∧
    now < x.expiresAt ∧ now - x.authenticatedAt ≤ seconds limit ∧ s.clock ≤ now

/-- What a transaction has found recent was so in a state of the run, if no transaction had read the
session before. -/
theorem recent_in_run (hg : Good sv settings s) (hrun : Run sv settings s tr s')
    {t : Thread (schema sv) Call Error AuthResult} (ht : s'.threads[i]? = some t)
    {userId sessionId : UUID} {limit : Nat} {now : Time}
    (hnew : ∀ u ∈ s.threads, ∀ r ∈ u.ctx.reads, r.db.session sessionId = none)
    (h : Recent t.ctx userId sessionId limit now) :
    now ≤ s'.clock ∧ ∃ m, Visits sv settings s tr s' m ∧
      LiveSession m userId sessionId limit now := by
  obtain ⟨⟨r, hr, x, hx, hrest⟩, reading, hreading, rfl⟩ := h
  have hsound := (hg.forward hrun).sound i t ht
  refine ⟨hsound.before.1 reading hreading, ?_⟩
  rcases run_reads hrun (List.mem_of_getElem? ht) hr with ⟨u, hu, hold⟩ | ⟨m, hvisits, hdb, hclock⟩
  · rw [hnew u hu r hold] at hx
    cases hx
  · refine ⟨m, hvisits, x, ?_⟩
    rw [hdb, hclock]
    exact ⟨hx, hrest⟩

/-- Before the first call nothing has been read. -/
theorem Initial.reads (h0 : Initial s₀) {sessionId : UUID} :
    ∀ u ∈ s₀.threads, ∀ r ∈ u.ctx.reads, r.db.session sessionId = none := by
  intro u hu
  rw [h0.threads] at hu
  cases hu

end

end Auth

section
variable {sv : Services} {settings : AuthSettings} {call : Call} {c : Ctx (schema sv)} {db : Db}

theorem Commits.users (h : Commits sv settings call c db) (hs : c.Sees db) :
    UserChange c db call := by
  obtain ⟨-, ⟨row, hguess⟩ | ⟨-, hexit⟩⟩ := h
  · exact .same (view_user_eq hguess.buf rfl)
  · exact hexit.users hs

end

/-- The identifiers of the rows. -/
def Db.ids (db : Db) : List UUID :=
  db.users.rows.map (·.id) ++ db.credentials.rows.map (·.userId) ++ db.sessions.rows.map (·.id) ++
    db.challenges.rows.map (·.id) ++ db.identities.rows.map (·.id)

theorem Db.mem_ids {db : Db} {id : UUID} (h : db.Uses id) : id ∈ db.ids := by
  have hrow : ∀ {α : Type} {key : α → UUID} {s : Store key}, s.get id ≠ none →
      id ∈ s.rows.map key := by
    intro α key s hget
    obtain ⟨r, hr⟩ := Option.ne_none_iff_exists'.1 hget
    exact List.mem_map.2 ⟨r, Store.mem_of_get hr, Store.key_of_get hr⟩
  simp only [Db.ids, List.mem_append]
  rcases h with h | h | h | h | h
  · exact .inl (.inl (.inl (.inl (hrow h))))
  · exact .inl (.inl (.inl (.inr (hrow h))))
  · exact .inl (.inl (.inr (hrow h)))
  · exact .inl (.inr (hrow h))
  · exact .inr (hrow h)

namespace AuthFixture

/-- The system on a database, a microsecond past the epoch. -/
def system (db : Db) : Auth.Sys services := { db, clock := 1, drawn := db.ids }

theorem system_initial {db : Db}
    (h : ∀ u ∈ db.users.rows, u.role = Role.admin.value → u.emailVerifiedAt.isSome) :
    Auth.Initial (system db) where
  threads := rfl
  admins := fun _ u hu => h u (Store.mem_of_get hu)
  drawn := fun _ hid => Db.mem_ids hid

/-- She, in her session. -/
def actor : Actor := { userId := 1, sessionId := 2, role := .customer, authenticatedAt := 0 }

/-- A number of steps of one thread. -/
def steps (i n : Nat) : List (Auth.Act services) := List.replicate n (.advance i)

end AuthFixture

end Ekumidayomi
