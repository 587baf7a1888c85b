import Registrar.Proofs.Office.Issue
import Registrar.Proofs.Service.Aside
import Registrar.Proofs.Service.Sessions
/-!
Visits that are made one after another with nothing in their way. What a pair is good for can be
told from the notes of the visits before: the store mirrors them (`Sound`).
-/
set_option autoImplicit false

namespace Registrar

/-- A visit that has been made, when it was, and what has become of it. -/
structure Note where
  visit : Visit
  wall : Instant
  outcome : Activity visit.Yield

structure VisitLog where
  world : World
  notes : List Note

namespace VisitLog

inductive Step where
  | visit (v : Visit)
  | pass (length : Span)

def blank (w : World) : VisitLog := ⟨w, []⟩

/-- What becomes of a visit that is made now. -/
def outcome (s : VisitLog) (v : Visit) : Activity v.Yield := (v.flow.advance s.world).2

/-- A visit that would have to wait is dropped. -/
def act (s : VisitLog) : Step → VisitLog
  | .visit v =>
    { world := (s.outcome v).drop (v.flow.advance s.world).1
      notes := ⟨v, s.world.clock.wall, s.outcome v⟩ :: s.notes }
  | .pass length => { s with world := s.world.setNow (s.world.now + length) }

def play (s : VisitLog) : List Step → VisitLog
  | [] => s
  | m :: steps => (s.act m).play steps

@[simp] theorem notes_visit (s : VisitLog) (v : Visit) :
    (s.act (.visit v)).notes = ⟨v, s.world.clock.wall, s.outcome v⟩ :: s.notes := rfl

@[simp] theorem notes_pass (s : VisitLog) (length : Span) :
    (s.act (.pass length)).notes = s.notes := rfl

/-- The pairs that have been issued, and for whom. -/
inductive Issued : List Note → TokenPair → Subject → Prop where
  | login {a : Accounts} {ctx : Context} {subject : Subject} {wall : Instant} {p : TokenPair}
      {notes : List Note} :
      Issued (⟨.login a ctx subject, wall, .done (.ok p)⟩ :: notes) p subject
  | refresh {a : Accounts} {ctx : Context} {token : String} {subject : Subject} {wall : Instant}
      {p q : TokenPair} {notes : List Note} (hq : Issued notes q subject)
      (ht : token = q.refreshToken) :
      Issued (⟨.refresh a ctx token, wall, .done (.ok p)⟩ :: notes) p subject
  | earlier {n : Note} {notes : List Note} {p : TokenPair} {subject : Subject}
      (hp : Issued notes p subject) : Issued (n :: notes) p subject

/-- Somebody has come to log out from a pair while its access half was good by its date. -/
def LoggedOut (notes : List Note) (p : TokenPair) : Prop :=
  ∃ n ∈ notes, (∃ ctx, n.visit = .logout ctx p.accessToken) ∧ n.wall < p.accessExpiry.floor

/-- Somebody has come to renew a pair while its refresh half was good by its date. -/
def Refreshed (notes : List Note) (p : TokenPair) : Prop :=
  ∃ n ∈ notes, (∃ a ctx, n.visit = .refresh a ctx p.refreshToken) ∧ n.wall < p.refreshExpiry.floor

def Offered (notes : List Note) (token : String) : Prop :=
  ∃ p subject, Issued notes p subject ∧ (token = p.accessToken ∨ token = p.refreshToken)

/-- Each context is live, each token has been issued, no expiry is out of reach, and no identifier is
the key of a counter. -/
def Fair (s : VisitLog) : Step → Prop
  | .visit (.register a _) => ∀ n day, s.world.ids n ≠ a.allocator.counterKey day
  | .visit (.allocate a _) => ∀ n day, s.world.ids n ≠ a.counterKey day
  | .visit (.login a ctx _) => s.world.Live ctx ∧ ∃ ea er, s.world.Reaches a.terms ea er
  | .visit (.authenticate ctx token) => s.world.Live ctx ∧ Offered s.notes token
  | .visit (.logout ctx token) => s.world.Live ctx ∧ Offered s.notes token
  | .visit (.refresh a ctx token) =>
    s.world.Live ctx ∧ Offered s.notes token ∧ ∃ ea er, s.world.Reaches a.terms ea er
  | .pass _ => True

def Lawful (s : VisitLog) : List Step → Prop
  | [] => True
  | m :: steps => s.Fair m ∧ (s.act m).Lawful steps

theorem Lawful.preserves {I : VisitLog → Prop} (hstep : ∀ s m, s.Fair m → I s → I (s.act m))
    {s : VisitLog} {steps : List Step} (h : s.Lawful steps) (hs : I s) : I (s.play steps) := by
  induction steps generalizing s with
  | nil => exact hs
  | cons m steps ih => exact ih h.2 (hstep s m h.1 hs)

theorem act_of_yields {s : VisitLog} {v : Visit} {w : World} {r : v.Yield}
    (h : v.flow.Yields s.world w r) :
    s.act (.visit v) = ⟨w, ⟨v, s.world.clock.wall, .done r⟩ :: s.notes⟩ := by
  have hadvance : v.flow.advance s.world = (w, .done r) := h
  rw [act, outcome, hadvance]
  rfl

theorem outcome_of_yields {s : VisitLog} {v : Visit} {w : World} {r : v.Yield}
    (h : v.flow.Yields s.world w r) : s.outcome v = .done r := congrArg Prod.snd h

theorem Offered.earlier {notes : List Note} {token : String} (h : Offered notes token) (n : Note) :
    Offered (n :: notes) token := by
  obtain ⟨p, subject, hp, ht⟩ := h
  exact ⟨p, subject, .earlier hp, ht⟩

theorem loggedOut_cons {n : Note} {notes : List Note} {p : TokenPair} :
    LoggedOut (n :: notes) p ↔
      ((∃ ctx, n.visit = .logout ctx p.accessToken) ∧ n.wall < p.accessExpiry.floor) ∨
        LoggedOut notes p :=
  List.exists_mem_cons_iff ..

theorem refreshed_cons {n : Note} {notes : List Note} {p : TokenPair} :
    Refreshed (n :: notes) p ↔
      ((∃ a ctx, n.visit = .refresh a ctx p.refreshToken) ∧ n.wall < p.refreshExpiry.floor) ∨
        Refreshed notes p :=
  List.exists_mem_cons_iff ..

section

variable {n : Note} {notes : List Note} {p : TokenPair} {subject : Subject}

theorem issued_cons_of_ne (hl : ∀ a ctx who, n.visit ≠ .login a ctx who)
    (hr : ∀ a ctx token, n.visit ≠ .refresh a ctx token) :
    Issued (n :: notes) p subject ↔ Issued notes p subject := by
  constructor
  · intro hp
    cases hp with
    | login => exact absurd rfl (hl _ _ _)
    | refresh hq => exact absurd rfl (hr _ _ _)
    | earlier hp => exact hp
  · exact .earlier

theorem loggedOut_cons_of_ne (h : ∀ ctx token, n.visit ≠ .logout ctx token) :
    LoggedOut (n :: notes) p ↔ LoggedOut notes p :=
  loggedOut_cons.trans (or_iff_right fun ⟨⟨_, he⟩, _⟩ => h _ _ he)

theorem refreshed_cons_of_ne (h : ∀ a ctx token, n.visit ≠ .refresh a ctx token) :
    Refreshed (n :: notes) p ↔ Refreshed notes p :=
  refreshed_cons.trans (or_iff_right fun ⟨⟨_, _, he⟩, _⟩ => h _ _ _ he)

end

def sessions (notes : List Note) : Sessions where
  issued := Issued notes
  closed := LoggedOut notes
  spent := fun p => LoggedOut notes p ∨ Refreshed notes p

/-- The store mirrors the notes, and every token in them has been issued. -/
structure Sound (ids : Nat → String) (s : VisitLog) : Prop where
  healthy : s.world.Healthy
  supply : s.world.ids = ids
  mirrored : (sessions s.notes).Mirrored s.world.ids s.world.clock s.world.minted s.world.store
  offered : ∀ n ∈ s.notes, ∀ token ∈ n.visit.token?, Offered s.notes token

theorem sound_blank {w : World} (hw : w.Healthy)
    (hfresh : ∀ n, w.minted ≤ n → w.store.entries.get? (w.ids n) = none) :
    (blank w).Sound w.ids where
  healthy := hw
  supply := rfl
  mirrored := by
    refine (Sessions.Mirrored.start hfresh).congr (fun p subject => ⟨fun h => ?_, False.elim⟩)
      (fun _ _ h => h.elim) (fun _ _ h => h.elim)
    cases h
  offered := by simp [blank]

namespace Sound

variable {ids : Nat → String} {s : VisitLog}

theorem offered_cons (hs : s.Sound ids) {n : Note}
    (ht : ∀ token ∈ n.visit.token?, Offered s.notes token) :
    ∀ x ∈ n :: s.notes, ∀ token ∈ x.visit.token?, Offered (n :: s.notes) token := by
  intro x hx token htoken
  rcases List.mem_cons.1 hx with rfl | hx
  · exact (ht token htoken).earlier _
  · exact (hs.offered x hx token htoken).earlier _

theorem next (hs : s.Sound ids) {v : World} {n : Note} {k : Nat} (hserves : s.world.Serves v k)
    (hm : (sessions (n :: s.notes)).Mirrored s.world.ids s.world.clock (s.world.minted + k) v.store)
    (ht : ∀ token ∈ n.visit.token?, Offered s.notes token) : Sound ids ⟨v, n :: s.notes⟩ where
  healthy := hs.healthy.serves hserves
  supply := hserves.ids.trans hs.supply
  mirrored := by rwa [hserves.ids, hserves.clock, hserves.minted]
  offered := hs.offered_cons ht

theorem unmoved (hs : s.Sound ids) {v : World} {n : Note} (hserves : s.world.Serves v 0)
    (hreads : s.world.store.Reads s.world.now v.store)
    (hissued : ∀ p subject, Issued (n :: s.notes) p subject → Issued s.notes p subject)
    (hclosed : ∀ p subject, Issued s.notes p subject → subject.name.toList ≠ [] →
      LoggedOut (n :: s.notes) p → LoggedOut s.notes p)
    (hspent : ∀ p subject, Issued s.notes p subject → subject.name.toList ≠ [] →
      Refreshed (n :: s.notes) p → LoggedOut s.notes p ∨ Refreshed s.notes p)
    (ht : ∀ token ∈ n.visit.token?, Offered s.notes token) : Sound ids ⟨v, n :: s.notes⟩ := by
  refine hs.next hserves ((hs.mirrored.reads hreads).congr ?_ ?_ ?_) ht
  · exact fun p subject => ⟨hissued p subject, .earlier⟩
  · exact fun p subject hp hn => ⟨hclosed p subject hp hn, fun h => loggedOut_cons.2 (.inr h)⟩
  · intro p subject hp hn
    constructor
    · rintro (h | h)
      · exact .inl (hclosed p subject hp hn h)
      · exact hspent p subject hp hn h
    · rintro (h | h)
      · exact .inl (loggedOut_cons.2 (.inr h))
      · exact .inr (refreshed_cons.2 (.inr h))

theorem pass (hs : s.Sound ids) (length : Span) : (s.act (.pass length)).Sound ids where
  healthy := ⟨hs.healthy.faults, hs.healthy.available, hs.healthy.accepting⟩
  supply := hs.supply
  mirrored := hs.mirrored.aside (Nat.le_add_right _ _) (Nat.le_refl _) fun _ _ _ => rfl
  offered := hs.offered

theorem aside (hs : s.Sound ids) {a : Allocator} {v : Visit} (ht : v.token? = none)
    (hv : v.isLogin = false) (hkeys : ∀ n day, s.world.ids n ≠ a.counterKey day)
    (h : s.world.Aside a.Foreign ((s.outcome v).drop (v.flow.advance s.world).1)) :
    (s.act (.visit v)).Sound ids where
  healthy := h.healthy hs.healthy
  supply := h.ids.trans hs.supply
  mirrored := by
    have hm := hs.mirrored.aside (Nat.le_refl _) h.minted fun n => h.reads (s.world.ids n) (hkeys n)
    have hclock : ({ s.world.clock with now := s.world.clock.now } : Clock) =
        ((s.outcome v).drop (v.flow.advance s.world).1).clock := h.clock.symm
    rw [← h.ids, hclock] at hm
    have hlogin : ∀ a ctx subject, v ≠ .login a ctx subject := by
      rintro a ctx subject rfl
      cases hv
    have hlogout : ∀ ctx token, v ≠ .logout ctx token := by
      rintro ctx token rfl
      cases ht
    have hrefresh : ∀ a ctx token, v ≠ .refresh a ctx token := by
      rintro a ctx token rfl
      cases ht
    refine hm.congr (fun p subject => ?_) (fun p subject _ _ => ?_) fun p subject _ _ => ?_
    · exact issued_cons_of_ne hlogin hrefresh
    · exact loggedOut_cons_of_ne hlogout
    · exact or_congr (loggedOut_cons_of_ne hlogout) (refreshed_cons_of_ne hrefresh)
  offered := hs.offered_cons (by simp [ht])

theorem register (hs : s.Sound ids) (a : Accounts) (ctx : Context)
    (hkeys : ∀ n day, s.world.ids n ≠ a.allocator.counterKey day) :
    (s.act (.visit (.register a ctx))).Sound ids := by
  have hkeeps : (Visit.register a ctx).flow.Keeps sincere s.world.ids (fun _ => a.allocator.Calls)
      (fun _ _ => True) [] := by
    refine Flow.keeps_run_bind.2 (Flow.keeps_adapt.2 ((Allocator.keeps_allocateToday _).imp ?_ ?_))
    · exact fun _ _ hc => hc
    · intro h r _
      cases r <;> trivial
  exact hs.aside rfl rfl hkeys (hkeeps.aside hs.healthy rfl)

theorem allocate (hs : s.Sound ids) (a : Allocator) (o : Order)
    (hkeys : ∀ n day, s.world.ids n ≠ a.counterKey day) :
    (s.act (.visit (.allocate a o))).Sound ids :=
  hs.aside rfl rfl hkeys ((o.keeps_flow (P := sincere) []).aside hs.healthy rfl)

theorem authenticate (hs : s.Sound ids) {ctx : Context} {token : String} (hl : s.world.Live ctx)
    (ht : Offered s.notes token) : (s.act (.visit (.authenticate ctx token))).Sound ids := by
  obtain ⟨v, hv, hserves, hreads⟩ := Accounts.yields_authenticate hs.healthy hl token
  rw [act_of_yields (v := .authenticate ctx token) hv]
  refine hs.unmoved hserves hreads ?_ ?_ ?_ (by simpa [Visit.token?] using ht)
  · exact fun p subject => (issued_cons_of_ne (by simp) (by simp)).1
  · exact fun p subject _ _ => (loggedOut_cons_of_ne (by simp)).1
  · exact fun p subject _ _ hp => .inr ((refreshed_cons_of_ne (by simp)).1 hp)

theorem logout (hs : s.Sound ids) {ctx : Context} {token : String} (hl : s.world.Live ctx)
    (ht : Offered s.notes token) : (s.act (.visit (.logout ctx token))).Sound ids := by
  have hoffered : ∀ x ∈ (Visit.logout ctx token).token?, Offered s.notes x := by
    simpa [Visit.token?] using ht
  cases ha : s.world.admits token with
  | error e =>
    obtain ⟨v, hv, hserves, hreads⟩ := Accounts.yields_logout_refused hs.healthy hl ha
    rw [act_of_yields (v := .logout ctx token) hv]
    refine hs.unmoved hserves hreads ?_ ?_ ?_ hoffered
    · exact fun p subject => (issued_cons_of_ne (by simp) (by simp)).1
    · intro p subject hp hn hnew
      rcases loggedOut_cons.1 hnew with ⟨⟨ctx', he⟩, hlt⟩ | hold
      · cases he
        by_contra hopen
        rw [(hs.mirrored.admits hp hn).1 ⟨hlt, hopen⟩] at ha
        cases ha
      · exact hold
    · exact fun p subject _ _ hp => .inr ((refreshed_cons_of_ne (by simp)).1 hp)
  | ok access =>
    obtain ⟨v, r, hv, hserves, hreads⟩ := Accounts.yields_logout hs.healthy hl ha
    rw [act_of_yields (v := .logout ctx token) hv]
    obtain ⟨p, subject, hp, htoken | htoken⟩ := ht
    · rw [htoken] at ha
      obtain ⟨hlt, rfl⟩ := World.admitted (hs.mirrored.formed hp) ha
      have hclosed : ∀ q other, Issued s.notes q other →
          (LoggedOut (⟨.logout ctx token, s.world.clock.wall, .done r⟩ :: s.notes) q ↔
            LoggedOut s.notes q ∨ q = p) := by
        intro q other hq
        refine loggedOut_cons.trans (or_comm.trans (or_congr_right ⟨?_, ?_⟩))
        · rintro ⟨⟨ctx', he⟩, -⟩
          cases he
          exact hs.mirrored.eq_of_access hq hp htoken
        · rintro rfl
          exact ⟨⟨ctx, by rw [htoken]⟩, hlt⟩
      have hm := ((hs.mirrored.drop_access hp).drop_refresh hp).reads hreads
      refine hs.next hserves (hm.congr ?_ ?_ ?_) hoffered
      · exact fun q other => issued_cons_of_ne (by simp) (by simp)
      · exact fun q other hq _ => hclosed q other hq
      · intro q other hq _
        exact (or_congr (hclosed q other hq) (refreshed_cons_of_ne (by simp))).trans or_right_comm
    · rw [htoken, World.admits_of_refresh (hs.mirrored.formed hp)] at ha
      cases ha

theorem unseen (hs : s.Sound ids) (hinj : Function.Injective ids) (hbare : ∀ n, Plain.Bare (ids n))
    {terms : Terms} {ea er : Instant} (hr : s.world.Reaches terms ea er) {subject : Subject}
    {p : TokenPair} (hp : p = Accounts.pair subject (s.world.ids s.world.minted)
      (s.world.ids (s.world.minted + 1)) ea er) : ¬ LoggedOut s.notes p ∧ ¬ Refreshed s.notes p := by
  have hsupply := hs.supply
  have hformed : p.Formed subject := by
    rw [hp, hsupply]
    exact .mk (hbare _) (hbare _) (Instant.check?_inRange hr.access).2
      (Instant.check?_inRange hr.refresh).2
  have haccess : p.accessId = ids s.world.minted := by rw [hp, hsupply]; rfl
  have hrefresh : p.refreshId = ids (s.world.minted + 1) := by rw [hp, hsupply]; rfl
  constructor
  · rintro ⟨n, hn, ⟨ctx, hv⟩, -⟩
    obtain ⟨q, other, hq, ht | ht⟩ := hs.offered n hn p.accessToken (by rw [hv]; rfl)
    · obtain ⟨k, hk, hid⟩ := hs.mirrored.accessId hq
      rw [← hformed.accessId_of_token (hs.mirrored.formed hq) ht, haccess, hsupply] at hid
      have hkm := hinj hid
      omega
    · exact hformed.token_ne (hs.mirrored.formed hq) ht
  · rintro ⟨n, hn, ⟨a, ctx, hv⟩, -⟩
    obtain ⟨q, other, hq, ht | ht⟩ := hs.offered n hn p.refreshToken (by rw [hv]; rfl)
    · exact (hs.mirrored.formed hq).token_ne hformed ht.symm
    · obtain ⟨k, hk, hid⟩ := hs.mirrored.refreshId hq
      rw [← hformed.refreshId_of_token (hs.mirrored.formed hq) ht, hrefresh, hsupply] at hid
      have hkm := hinj hid
      omega

theorem login (hs : s.Sound ids) (hinj : Function.Injective ids) (hbare : ∀ n, Plain.Bare (ids n))
    {a : Accounts} {ctx : Context} (hl : s.world.Live ctx) {ea er : Instant}
    (hr : s.world.Reaches a.terms ea er) (subject : Subject) :
    (s.act (.visit (.login a ctx subject))).Sound ids := by
  obtain ⟨v, hv, hserves, hstore⟩ := Accounts.yields_login hs.healthy hl a subject hr
  rw [act_of_yields (v := .login a ctx subject) hv]
  generalize hp : Accounts.pair subject (s.world.ids s.world.minted)
    (s.world.ids (s.world.minted + 1)) ea er = p
  obtain ⟨hopen, hgood⟩ := hs.unseen hinj hbare hr hp.symm
  have hm := hs.mirrored.issue (hs.supply ▸ hinj) (hs.supply ▸ hbare) hr hp.symm hopen
    (not_or.2 ⟨hopen, hgood⟩)
  rw [← hstore] at hm
  refine hs.next hserves (hm.congr ?_ ?_ ?_) (by simp [Visit.token?])
  · intro q other
    constructor
    · intro hq
      cases hq with
      | login => exact .inr ⟨rfl, rfl⟩
      | earlier hq => exact .inl hq
    · rintro (hq | ⟨rfl, rfl⟩)
      · exact .earlier hq
      · exact .login
  · exact fun q other _ _ => loggedOut_cons_of_ne (by simp)
  · exact fun q other _ _ => or_congr (loggedOut_cons_of_ne (by simp)) (refreshed_cons_of_ne (by simp))

theorem refresh (hs : s.Sound ids) (hinj : Function.Injective ids) (hbare : ∀ n, Plain.Bare (ids n))
    {a : Accounts} {ctx : Context} {token : String} (hl : s.world.Live ctx)
    (ht : Offered s.notes token) {ea er : Instant} (hr : s.world.Reaches a.terms ea er) :
    (s.act (.visit (.refresh a ctx token))).Sound ids := by
  have hoffered : ∀ x ∈ (Visit.refresh a ctx token).token?, Offered s.notes x := by
    simpa [Visit.token?] using ht
  cases hn : s.world.renews token with
  | error e =>
    obtain ⟨v, hv, hserves, hreads⟩ := Accounts.yields_refresh_refused hs.healthy hl a hn
    rw [act_of_yields (v := .refresh a ctx token) hv]
    refine hs.unmoved hserves hreads ?_ ?_ ?_ hoffered
    · intro p subject hp
      cases hp with
      | earlier hp => exact hp
    · exact fun p subject _ _ => (loggedOut_cons_of_ne (by simp)).1
    · intro p subject hp hname hnew
      rcases refreshed_cons.1 hnew with ⟨⟨a', ctx', he⟩, hlt⟩ | hold
      · cases he
        by_contra hgood
        rw [(hs.mirrored.renews hp hname).1 ⟨hlt, hgood⟩] at hn
        cases hn
      · exact .inr hold
  | ok claims =>
    obtain ⟨v, hv, hserves, hreads⟩ := Accounts.yields_refresh hs.healthy hl a hr hn
    rw [act_of_yields (v := .refresh a ctx token) hv]
    obtain ⟨q, subject, hq, htoken | htoken⟩ := ht
    · rw [htoken, World.renews_of_access (hs.mirrored.formed hq)] at hn
      cases hn
    · rw [htoken] at hn
      obtain ⟨hlt, rfl⟩ := World.renewed (hs.mirrored.formed hq) hn
      generalize hp : Accounts.pair subject (s.world.ids s.world.minted)
        (s.world.ids (s.world.minted + 1)) ea er = p
      obtain ⟨hopen, hgood⟩ := hs.unseen hinj hbare hr hp.symm
      have hne : p ≠ q := by
        rintro rfl
        obtain ⟨k, hk, hid⟩ := hs.mirrored.accessId hq
        rw [← hp] at hid
        have hkm := (hs.supply ▸ hinj) hid
        omega
      have hm := (hs.mirrored.drop_refresh hq).issue (hs.supply ▸ hinj) (hs.supply ▸ hbare) hr
        hp.symm hopen (not_or.2 ⟨not_or.2 ⟨hopen, hgood⟩, hne⟩)
      refine hs.next hserves ((hm.reads hreads).congr ?_ ?_ ?_) hoffered
      · intro x other
        constructor
        · intro hx
          cases hx with
          | refresh hq' ht =>
            exact .inr ⟨rfl, (hs.mirrored.eq_of_refresh hq' hq (ht.symm.trans htoken)).2⟩
          | earlier hx => exact .inl hx
        · rintro (hx | ⟨rfl, rfl⟩)
          · exact .earlier hx
          · exact .refresh hq htoken
      · exact fun x other _ _ => loggedOut_cons_of_ne (by simp)
      · intro x other hx _
        have hspent : Refreshed
            (⟨.refresh a ctx token, s.world.clock.wall, .done (.ok p)⟩ :: s.notes) x ↔
            Refreshed s.notes x ∨ x = q := by
          refine refreshed_cons.trans (or_comm.trans (or_congr_right ⟨?_, ?_⟩))
          · rintro ⟨⟨a', ctx', he⟩, -⟩
            cases he
            exact (hm.eq_of_refresh hx (.inl hq) htoken).1
          · rintro rfl
            exact ⟨⟨a, ctx, by rw [htoken]⟩, hlt⟩
        exact (or_congr (loggedOut_cons_of_ne (by simp)) hspent).trans or_assoc.symm

theorem act (hs : s.Sound ids) (hinj : Function.Injective ids) (hbare : ∀ n, Plain.Bare (ids n))
    {m : Step} (hm : s.Fair m) : (s.act m).Sound ids := by
  cases m with
  | pass length => exact hs.pass length
  | visit v =>
    cases v with
    | register a ctx => exact hs.register a ctx hm
    | allocate a o => exact hs.allocate a o hm
    | login a ctx subject =>
      obtain ⟨hl, ea, er, hr⟩ := hm
      exact hs.login hinj hbare hl hr subject
    | authenticate ctx token => exact hs.authenticate hm.1 hm.2
    | logout ctx token => exact hs.logout hm.1 hm.2
    | refresh a ctx token =>
      obtain ⟨hl, ht, ea, er, hr⟩ := hm
      exact hs.refresh hinj hbare hl ht hr

end Sound

theorem Lawful.sound {w : World} (hw : w.Healthy) (hinj : Function.Injective w.ids)
    (hbare : ∀ n, Plain.Bare (w.ids n))
    (hfresh : ∀ n, w.minted ≤ n → w.store.entries.get? (w.ids n) = none) {steps : List Step}
    (h : (blank w).Lawful steps) : ((blank w).play steps).Sound w.ids :=
  h.preserves (fun _ _ hm hs => hs.act hinj hbare hm) (sound_blank hw hfresh)

/-- What a pair is good for now, by its dates and by the notes. -/
structure Honours (s : VisitLog) (p : TokenPair) (subject : Subject) : Prop where
  ordered : p.accessExpiry < p.refreshExpiry
  admits : ∀ ctx, s.world.Live ctx →
    s.world.clock.wall < p.accessExpiry.floor ∧ ¬ LoggedOut s.notes p →
    s.outcome (.authenticate ctx p.accessToken) = .done (.ok ⟨p.accessId, p.refreshId, subject⟩)
  refuses : ∀ ctx, s.world.Live ctx →
    ¬ (s.world.clock.wall < p.accessExpiry.floor ∧ ¬ LoggedOut s.notes p) →
    s.outcome (.authenticate ctx p.accessToken) = .done (.error .unauthorized)
  renews : ∀ (a : Accounts) ctx, s.world.Live ctx → ∀ ea er, s.world.Reaches a.terms ea er →
    s.world.clock.wall < p.refreshExpiry.floor ∧ ¬ Refreshed s.notes p ∧ ¬ LoggedOut s.notes p →
    s.outcome (.refresh a ctx p.refreshToken) = .done (.ok (Accounts.pair subject
      (s.world.ids s.world.minted) (s.world.ids (s.world.minted + 1)) ea er))
  spares : ∀ (a : Accounts) ctx, s.world.Live ctx →
    ¬ (s.world.clock.wall < p.refreshExpiry.floor ∧ ¬ Refreshed s.notes p ∧ ¬ LoggedOut s.notes p) →
    s.outcome (.refresh a ctx p.refreshToken) = .done (.error .unauthorized)

theorem Sound.honours {ids : Nat → String} {s : VisitLog} (hs : s.Sound ids) {p : TokenPair}
    {subject : Subject} (hp : Issued s.notes p subject) (hn : subject.name.toList ≠ []) :
    s.Honours p subject where
  ordered := hs.mirrored.ordered hp
  admits := fun ctx hl hgood => by
    obtain ⟨v, hv, -⟩ := Accounts.yields_authenticate hs.healthy hl p.accessToken
    rw [outcome_of_yields (v := .authenticate ctx p.accessToken) hv,
      (hs.mirrored.admits hp hn).1 hgood]
  refuses := fun ctx hl hbad => by
    obtain ⟨v, hv, -⟩ := Accounts.yields_authenticate hs.healthy hl p.accessToken
    rw [outcome_of_yields (v := .authenticate ctx p.accessToken) hv,
      (hs.mirrored.admits hp hn).2 hbad]
  renews := fun a ctx hl ea er hr ⟨hlt, hnew, hopen⟩ => by
    have hgood := (hs.mirrored.renews hp hn).1 ⟨hlt, not_or.2 ⟨hopen, hnew⟩⟩
    obtain ⟨v, hv, -⟩ := Accounts.yields_refresh hs.healthy hl a hr hgood
    exact outcome_of_yields (v := .refresh a ctx p.refreshToken) hv
  spares := fun a ctx hl hbad => by
    have hrefused := (hs.mirrored.renews hp hn).2 fun ⟨hlt, hgood⟩ =>
      hbad ⟨hlt, fun h => hgood (.inr h), fun h => hgood (.inl h)⟩
    obtain ⟨v, hv, -⟩ := Accounts.yields_refresh_refused hs.healthy hl a hrefused
    exact outcome_of_yields (v := .refresh a ctx p.refreshToken) hv

/-- A pair is good until its dates, and no longer than until somebody comes to log out from it or, for
the refresh half, to renew it. What the logout was answered does not matter, and the access half
outlives the renewal. -/
theorem issued_honoured {w : World} (hw : w.Healthy) (hinj : Function.Injective w.ids)
    (hbare : ∀ n, Plain.Bare (w.ids n))
    (hfresh : ∀ n, w.minted ≤ n → w.store.entries.get? (w.ids n) = none) {steps : List Step}
    (h : (blank w).Lawful steps) {p : TokenPair} {subject : Subject}
    (hp : Issued ((blank w).play steps).notes p subject) (hn : subject.name ≠ "") :
    ((blank w).play steps).Honours p subject :=
  (h.sound hw hinj hbare hfresh).honours hp fun he => hn (String.toList_eq_nil_iff.1 he)

section

open Crowd (alice unending firstPair)

/-- Alice logs in, renews her pair half a minute later, and waits until the old access half is about to
expire. -/
def renewal : List Step :=
  [.visit (.login .brief unending alice), .pass (.ofSecs 30),
    .visit (.refresh .brief unending firstPair.refreshToken), .pass (.ofSecs 29)]

theorem live_unending (w : World) : w.Live unending := rfl

theorem numbered_healthy : World.numbered.Healthy := ⟨rfl, rfl, rfl⟩

theorem outcome_arrival :
    (blank .numbered).outcome (.login .brief unending alice) = .done (.ok firstPair) := by
  have hr : World.numbered.Reaches Accounts.brief.terms (1577836860 * Instant.nanosPerSec)
      (1577840400 * Instant.nanosPerSec) :=
    ⟨by decide +kernel, by decide +kernel, by decide +kernel⟩
  obtain ⟨v, hv, -⟩ := Accounts.yields_login numbered_healthy (live_unending _) .brief alice hr
  have hpair : Accounts.pair alice (World.numbered.ids World.numbered.minted)
      (World.numbered.ids (World.numbered.minted + 1)) (1577836860 * Instant.nanosPerSec)
      (1577840400 * Instant.nanosPerSec) = firstPair := by
    decide +kernel
  rw [hpair] at hv
  exact outcome_of_yields (s := blank .numbered) (v := .login .brief unending alice) hv

theorem issued_arrival :
    Issued (((blank .numbered).act (.visit (.login .brief unending alice))).notes) firstPair alice := by
  rw [notes_visit, outcome_arrival]
  exact .login

theorem lawful_renewal : (blank .numbered).Lawful renewal := by
  have hoffered : Offered (((blank .numbered).act (.visit (.login .brief unending alice))).act
      (.pass (.ofSecs 30))).notes firstPair.refreshToken := by
    rw [notes_pass]
    exact ⟨firstPair, alice, issued_arrival, .inr rfl⟩
  refine ⟨⟨live_unending _, 1577836860 * Instant.nanosPerSec, 1577840400 * Instant.nanosPerSec, ?_⟩,
    trivial, ⟨live_unending _, hoffered, 1577836890 * Instant.nanosPerSec,
      1577840430 * Instant.nanosPerSec, ?_⟩, trivial, trivial⟩
  · exact ⟨by decide +kernel, by decide +kernel, by decide +kernel⟩
  · exact ⟨by decide +kernel, by decide +kernel, by decide +kernel⟩

theorem issued_honoured_renewal :
    ((blank .numbered).play renewal).outcome (.authenticate unending firstPair.accessToken) =
        .done (.ok ⟨"0", "1", alice⟩) ∧
      ((blank .numbered).play renewal).outcome (.refresh .brief unending firstPair.refreshToken) =
        .done (.error .unauthorized) := by
  have hp : Issued ((blank .numbered).play renewal).notes firstPair alice := by
    rw [renewal, play, play, play, play, play, notes_pass, notes_visit, notes_pass]
    exact .earlier issued_arrival
  have h := issued_honoured numbered_healthy World.numbered_injective World.numbered_bare
    World.numbered_fresh lawful_renewal hp (by decide)
  constructor
  · refine h.admits unending (live_unending _) ⟨by decide +kernel, ?_⟩
    simp [LoggedOut, play, renewal, blank]
  · refine h.spares .brief unending (live_unending _) fun hgood => hgood.2.1 ?_
    rw [renewal, play, play, play, play, play, notes_pass, notes_visit, notes_pass]
    exact ⟨_, List.mem_cons_self, ⟨.brief, unending, rfl⟩, by decide +kernel⟩

end

end VisitLog

end Registrar
