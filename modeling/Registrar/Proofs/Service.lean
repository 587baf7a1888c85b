import Registrar.Account
import Registrar.Activity
import Registrar.Proofs.Claims
import Registrar.Proofs.Crowd.Ledger
set_option autoImplicit false

namespace Registrar

namespace Flow

variable {α β ε δ : Type} {w v u : World}

/-- A flow that comes to its end in one go. -/
def Yields (f : Flow α) (w v : World) (a : α) : Prop := f.advance w = (v, .done a)

/-- What goes on after a flow comes in where the flow is done, and changes nothing where it is not. -/
theorem advance_bind (f : Flow α) (k : α → Flow β) (w : World) :
    (∃ v a, f.advance w = (v, .done a) ∧ (f.bind k).advance w = (k a).advance v) ∨
      (∃ v, f.advance w = (v, .crashed) ∧ (f.bind k).advance w = (v, .crashed)) ∨
      (f.advance w).2.isWaiting = true ∧ ((f.bind k).advance w).2.isWaiting = true := by
  induction f generalizing w with
  | done a => exact .inl ⟨w, a, rfl, rfl⟩
  | crash => exact .inr (.inl ⟨w, rfl, rfl⟩)
  | now l ih => exact ih _ w
  | mint l ih => exact ih _ _
  | request root timeout l ih =>
    simp only [Flow.bind, advance]
    cases root.child w.signals w.now timeout with
    | none => exact .inr (.inl ⟨w, rfl, rfl⟩)
    | some r => exact ih _ _
  | call g c held l ih =>
    simp only [Flow.bind, advance]
    generalize World.attend _ _ _ g c _ = r
    obtain ⟨v, turn⟩ := r
    cases turn with
    | concluded o => exact ih o v
    | pending p => exact .inr (.inr ⟨rfl, rfl⟩)
    | crashed => exact .inr (.inl ⟨v.orphan held, rfl, rfl⟩)

theorem Yields.bind {f : Flow α} {a : α} {k : α → Flow β} {b : β} (h : f.Yields w v a)
    (hk : (k a).Yields v u b) : (f.bind k).Yields w u b := by
  unfold Yields at *
  rcases advance_bind f k w with ⟨v', a', hf, hbind⟩ | ⟨v', hf, -⟩ | ⟨hf, -⟩
  · cases h.symm.trans hf
    exact hbind.trans hk
  · cases h.symm.trans hf
  · rw [h] at hf
    cases hf

theorem Yields.run_bind {x : ExceptT ε Flow α} {k : α → ExceptT ε Flow β} {a : α} {r : Except ε β}
    (h : x.run.Yields w v (.ok a)) (hk : (k a).run.Yields v u r) : (x >>= k).run.Yields w u r :=
  h.bind hk

theorem Yields.run_error {x : ExceptT ε Flow α} {k : α → ExceptT ε Flow β} {e : ε}
    (h : x.run.Yields w v (.error e)) : (x >>= k).run.Yields w v (.error e) :=
  h.bind rfl

theorem Yields.adapt {x : ExceptT ε Flow α} {f : ε → δ} {r : Except ε α}
    (h : x.run.Yields w v r) : (x.adapt f).run.Yields w v (r.mapError f) :=
  h.bind rfl

end Flow

namespace Store

variable {s t u : Store} {now : Tick} {key k : String}

def Reads (now : Tick) (s t : Store) : Prop :=
  ∀ key later, now ≤ later → t.find? later key = s.find? later key

theorem Reads.refl (now : Tick) (s : Store) : Reads now s s := fun _ _ _ => rfl

theorem find?_drop (s : Store) (now : Tick) (key k : String) :
    (s.drop k).find? now key = if key = k then none else s.find? now key := by
  by_cases hk : key = k
  · subst hk
    simp [find?, drop]
  · rw [if_neg hk]
    exact find?_congr (get?_drop_of_ne s hk)

theorem find?_put (s : Store) (now : Tick) (key k : String) (e : Entry) :
    (s.put k e).find? now key =
      if key = k then (some e).filter (Entry.live now) else s.find? now key := by
  by_cases hk : key = k
  · subst hk
    rw [if_pos rfl, find?, get?_put_self]
  · rw [if_neg hk]
    exact find?_congr (get?_put_of_ne s e hk)

theorem Reads.drop (h : Reads now s t) (k : String) : Reads now (s.drop k) (t.drop k) := by
  intro key later hl
  rw [find?_drop, find?_drop, h key later hl]

theorem Reads.put (h : Reads now s t) (k : String) (e : Entry) :
    Reads now (s.put k e) (t.put k e) := by
  intro key later hl
  rw [find?_put, find?_put, h key later hl]

theorem reads_get (s : Store) (now : Tick) (k : String) : Reads now s (s.get now k).2 := by
  intro key later hl
  have hm : s.get now k = ((s.get now k).1, (s.get now k).2) := rfl
  generalize (s.get now k).2 = t at hm ⊢
  have hmarked : t.entries.get? key = s.entries.get? key ∨
      t.entries.get? key = none ∧ s.find? now key = none := get_marked hm
  rcases hmarked with h | ⟨h, hf⟩
  · exact find?_congr h
  · rw [find?, h]
    exact (Crowd.Ledger.filter_later hl hf).symm

end Store

namespace World

/-- Nothing goes wrong with the store. -/
structure Healthy (w : World) : Prop where
  faults : w.faults = .none
  available : w.store.available = true
  accepting : w.store.accepting = true

def Live (w : World) (ctx : Context) : Prop := ctx.interruption? w.signals w.now = none

/-- What operations leave as it is, but for the number of identifiers minted. -/
structure Serves (w v : World) (n : Nat) : Prop where
  clock : v.clock = w.clock
  signals : v.signals = w.signals
  ids : v.ids = w.ids
  faults : v.faults = w.faults
  available : v.store.available = w.store.available
  accepting : v.store.accepting = w.store.accepting
  minted : v.minted = w.minted + n

def stored (w : World) (c : StoreCall) (s : Store) : World :=
  { w with tickets := w.tickets + 1, journal := .store c :: w.journal, store := s }

variable {w v u : World} {n m : Nat}

theorem Serves.refl (w : World) : w.Serves w 0 := ⟨rfl, rfl, rfl, rfl, rfl, rfl, rfl⟩

theorem Serves.now (h : w.Serves v n) : v.now = w.now := congrArg Clock.now h.clock

theorem Serves.trans (h : w.Serves v n) (k : v.Serves u m) : w.Serves u (n + m) where
  clock := k.clock.trans h.clock
  signals := k.signals.trans h.signals
  ids := k.ids.trans h.ids
  faults := k.faults.trans h.faults
  available := k.available.trans h.available
  accepting := k.accepting.trans h.accepting
  minted := by rw [k.minted, h.minted, Nat.add_assoc]

theorem Serves.mint (w : World) : w.Serves w.mint.2 1 := ⟨rfl, rfl, rfl, rfl, rfl, rfl, rfl⟩

theorem Serves.counted (w : World) (tickets : Nat) : w.Serves { w with tickets := tickets } 0 :=
  ⟨rfl, rfl, rfl, rfl, rfl, rfl, rfl⟩

theorem serves_noteHolder (w : World) (h : Holder) : w.Serves (w.noteHolder h) 0 := by
  unfold noteHolder
  split
  · exact .refl w
  · exact ⟨rfl, rfl, rfl, rfl, rfl, rfl, rfl⟩

theorem Serves.stored (c : StoreCall) {s : Store} (ha : s.available = w.store.available)
    (hacc : s.accepting = w.store.accepting) : w.Serves (w.stored c s) 0 :=
  ⟨rfl, rfl, rfl, rfl, ha, hacc, rfl⟩

theorem Healthy.serves (hw : w.Healthy) (h : w.Serves v n) : v.Healthy where
  faults := h.faults.trans hw.faults
  available := h.available.trans hw.available
  accepting := h.accepting.trans hw.accepting

theorem Live.serves {ctx : Context} (hl : w.Live ctx) (h : w.Serves v n) : v.Live ctx := by
  rw [Live, h.signals, h.now]
  exact hl

end World

namespace Tokens

variable {w : World} {ctx : Context}

theorem yields_ask (hw : w.Healthy) (hl : w.Live ctx) {c : StoreCall}
    {a : Except StoreError c.Answer} {s : Store} (hp : w.store.perform w.now c = some (a, s)) :
    (ask ctx c).run.Yields w (w.stored c s) (answer (.ok a)) := by
  have hattend := World.attend_store (w := { w with tickets := w.tickets + 1 }) hw.faults hl w.tickets
    (w.lapse (.under ctx)) hp
  simp only [ask, ExceptT.run_mk, Flow.Yields, Flow.advance, hattend]
  rfl

theorem yields_get (hw : w.Healthy) (hl : w.Live ctx) (key : String) :
    ∃ v, (ask ctx (.get key)).run.Yields w v (.ok (w.store.peek w.now key)) ∧ w.Serves v 0 ∧
      w.store.Reads w.now v.store := by
  have hp : w.store.perform w.now (.get key) =
      some (.ok (w.store.peek w.now key), (w.store.get w.now key).2) := by
    simp only [Store.perform, hw.available, if_true]
    rw [Store.peek, ← Store.get_agrees]
  have hsame : (w.store.get w.now key).2.available = w.store.available ∧
      (w.store.get w.now key).2.accepting = w.store.accepting := by
    unfold Store.get
    split
    · exact ⟨rfl, rfl⟩
    · split <;> exact ⟨rfl, rfl⟩
  exact ⟨_, yields_ask hw hl hp, .stored _ hsame.1 hsame.2, Store.reads_get _ _ _⟩

theorem yields_revokeOne (hw : w.Healthy) (hl : w.Live ctx) (key : String) :
    ∃ v, (revokeOne ctx key).run.Yields w v
        (.ok (if (w.store.find? w.now key).isSome then 1 else 0)) ∧
      w.Serves v 0 ∧ v.store = w.store.drop key := by
  have hp : w.store.perform w.now (.del [key]) =
      some (.ok (if (w.store.find? w.now key).isSome then 1 else 0 : Nat), w.store.drop key) := by
    simp only [Store.perform, hw.available, if_true]
    rw [← Store.del_agrees]
    rfl
  exact ⟨_, yields_ask hw hl hp, .stored _ rfl rfl, rfl⟩

theorem yields_set (hw : w.Healthy) (hl : w.Live ctx) (key value : String) {ttl : Span}
    (ht : (w.now.after? ttl).isSome = true) :
    ∃ v, (ask ctx (.set key value ttl)).run.Yields w v (.ok true) ∧ w.Serves v 0 ∧
      v.store = w.store.put key ⟨value, some (w.now + ttl)⟩ := by
  have hp : w.store.perform w.now (.set key value ttl) =
      some (.ok true, w.store.put key ⟨value, some (w.now + ttl)⟩) := by
    obtain ⟨dies, hdies⟩ := Option.isSome_iff_exists.1 ht
    have hsum := Tick.eq_of_after? hdies
    simp [Store.perform, hw.available, Store.set, hw.accepting, hdies, hsum]
  exact ⟨_, yields_ask hw hl hp, .stored _ rfl rfl, rfl⟩

theorem yields_resolve (hw : w.Healthy) (hl : w.Live ctx) (id : String) :
    ∃ v, (resolve ctx id).run.Yields w v
        (match w.store.peek w.now id with
          | some name => .ok ⟨name⟩
          | none => .error .notFound) ∧
      w.Serves v 0 ∧ w.store.Reads w.now v.store := by
  obtain ⟨v, hv, hserves, hreads⟩ := yields_get hw hl id
  refine ⟨v, hv.run_bind ?_, hserves, hreads⟩
  cases w.store.peek w.now id <;> rfl

theorem yields_record (hw : w.Healthy) (hl : w.Live ctx) (subject : Subject) {p : TokenPair}
    (hshort : (w.now.after? (w.clock.wall.untilInstant p.accessExpiry)).isSome = true)
    (hlong : (w.now.after? (w.clock.wall.untilInstant p.refreshExpiry)).isSome = true) :
    ∃ v, (record ctx subject p).run.Yields w v (.ok ()) ∧ w.Serves v 0 ∧
      v.store = (w.store.put p.accessId
          ⟨subject.name, some (w.now + w.clock.wall.untilInstant p.accessExpiry)⟩).put p.refreshId
        ⟨subject.name, some (w.now + w.clock.wall.untilInstant p.refreshExpiry)⟩ := by
  have hread : Tokens.clock.run.Yields w w (.ok w.clock) := rfl
  obtain ⟨x, hx, hsx, hxs⟩ := yields_set hw hl p.accessId subject.name hshort
  rw [← hsx.now] at hlong
  obtain ⟨y, hy, hsy, hys⟩ := yields_set (hw.serves hsx) (hl.serves hsx) p.refreshId subject.name hlong
  have hdone : (pure () : TokenFlow Unit).run.Yields y y (.ok ()) := rfl
  refine ⟨y, hread.run_bind (hx.run_bind (hy.run_bind hdone)), hsx.trans hsy, ?_⟩
  rw [hys, hxs, hsx.now]

theorem yields_revoke (hw : w.Healthy) (hl : w.Live ctx) (access : Access) :
    ∃ v m n, (revoke ctx access).run.Yields w v
        (if m = 1 ∧ n = 1 then .ok () else .error (.revocationIncomplete m n)) ∧
      m = (if (w.store.find? w.now access.accessId).isSome then 1 else 0) ∧
      n = (if ((w.store.drop access.accessId).find? w.now access.refreshId).isSome then 1 else 0) ∧
      w.Serves v 0 ∧ v.store = (w.store.drop access.accessId).drop access.refreshId := by
  obtain ⟨x, hx, hsx, hxs⟩ := yields_revokeOne hw hl access.accessId
  obtain ⟨y, hy, hsy, hys⟩ := yields_revokeOne (hw.serves hsx) (hl.serves hsx) access.refreshId
  rw [hsx.now, hxs] at hy
  generalize (if (w.store.find? w.now access.accessId).isSome then 1 else 0 : Nat) = m at hx ⊢
  generalize (if ((w.store.drop access.accessId).find? w.now access.refreshId).isSome
    then 1 else 0 : Nat) = n at hy ⊢
  refine ⟨y, m, n, hx.run_bind (hy.run_bind ?_), rfl, rfl, hsx.trans hsy, by rw [hys, hxs]⟩
  by_cases hmn : m = 1 ∧ n = 1
  · rw [if_pos hmn, if_pos hmn]
    rfl
  · rw [if_neg hmn, if_neg hmn]
    rfl

end Tokens

namespace World

def admits (w : World) (token : String) : Except AccountError Access :=
  match AccessClaims.ofToken w.clock.wall token with
  | .error _ => .error .unauthorized
  | .ok claims =>
    if w.store.peek w.now claims.accessId = some claims.subject.name then
      .ok ⟨claims.accessId, claims.refreshId, claims.subject⟩
    else .error .unauthorized

def renews (w : World) (token : String) : Except AccountError RefreshClaims :=
  match RefreshClaims.ofToken w.clock.wall token with
  | .error _ => .error .unauthorized
  | .ok claims =>
    if w.store.peek w.now claims.refreshId = some claims.subject.name then .ok claims
    else .error .unauthorized

section

variable {w : World} {p : TokenPair} {subject : Subject}

theorem admits_of_formed (hp : p.Formed subject) : w.admits p.accessToken =
    if subject.name.toList ≠ [] ∧ w.clock.wall < p.accessExpiry.floor ∧
      w.store.peek w.now p.accessId = some subject.name then .ok ⟨p.accessId, p.refreshId, subject⟩
    else .error .unauthorized := by
  unfold admits
  cases hc : AccessClaims.ofToken w.clock.wall p.accessToken with
  | error x =>
    have hnot : ¬ (subject.name.toList ≠ [] ∧ w.clock.wall < p.accessExpiry.floor ∧
        w.store.peek w.now p.accessId = some subject.name) := by
      rintro ⟨hn, hlt, -⟩
      rw [hp.access_iff.2 ⟨hn, hlt, rfl⟩] at hc
      cases hc
    rw [if_neg hnot]
  | ok claims =>
    obtain ⟨hn, hlt, rfl⟩ := hp.access_iff.1 hc
    simp only [hn, hlt, ne_eq, not_false_eq_true, true_and]

theorem renews_of_formed (hp : p.Formed subject) : w.renews p.refreshToken =
    if subject.name.toList ≠ [] ∧ w.clock.wall < p.refreshExpiry.floor ∧
      w.store.peek w.now p.refreshId = some subject.name then
      .ok ⟨p.refreshId, subject, p.refreshExpiry.floor⟩
    else .error .unauthorized := by
  unfold renews
  cases hc : RefreshClaims.ofToken w.clock.wall p.refreshToken with
  | error x =>
    have hnot : ¬ (subject.name.toList ≠ [] ∧ w.clock.wall < p.refreshExpiry.floor ∧
        w.store.peek w.now p.refreshId = some subject.name) := by
      rintro ⟨hn, hlt, -⟩
      rw [hp.refresh_iff.2 ⟨hn, hlt, rfl⟩] at hc
      cases hc
    rw [if_neg hnot]
  | ok claims =>
    obtain ⟨hn, hlt, rfl⟩ := hp.refresh_iff.1 hc
    simp only [hn, hlt, ne_eq, not_false_eq_true, true_and]

theorem admitted (hp : p.Formed subject) {access : Access}
    (h : w.admits p.accessToken = .ok access) :
    w.clock.wall < p.accessExpiry.floor ∧ access = ⟨p.accessId, p.refreshId, subject⟩ := by
  rw [admits_of_formed hp] at h
  split at h
  · rename_i hgood
    cases h
    exact ⟨hgood.2.1, rfl⟩
  · cases h

theorem renewed (hp : p.Formed subject) {claims : RefreshClaims}
    (h : w.renews p.refreshToken = .ok claims) :
    w.clock.wall < p.refreshExpiry.floor ∧ claims = ⟨p.refreshId, subject, p.refreshExpiry.floor⟩ := by
  rw [renews_of_formed hp] at h
  split at h
  · rename_i hgood
    cases h
    exact ⟨hgood.2.1, rfl⟩
  · cases h

theorem admits_of_refresh (hp : p.Formed subject) :
    w.admits p.refreshToken = .error .unauthorized := by
  rw [admits, hp.access_of_refresh]

theorem renews_of_access (hp : p.Formed subject) :
    w.renews p.accessToken = .error .unauthorized := by
  rw [renews, hp.refresh_of_access]

end

structure Reaches (w : World) (terms : Terms) (ea er : Instant) : Prop where
  access : w.clock.wall.after? terms.access = some ea
  refresh : w.clock.wall.after? terms.refresh = some er
  tick : (w.now.after? terms.refresh).isSome = true

theorem Reaches.serves {w v : World} {n : Nat} {terms : Terms} {ea er : Instant}
    (hr : w.Reaches terms ea er) (h : w.Serves v n) : v.Reaches terms ea er where
  access := by
    rw [h.clock]
    exact hr.access
  refresh := by
    rw [h.clock]
    exact hr.refresh
  tick := by
    rw [h.now]
    exact hr.tick

def issue (w : World) (terms : Terms) (subject : Subject) (s : Store) : Store :=
  (s.put (w.ids w.minted) ⟨subject.name, some (w.now + terms.access)⟩).put
    (w.ids (w.minted + 1)) ⟨subject.name, some (w.now + terms.refresh)⟩

end World

theorem Instant.untilInstant_after {t e : Instant} {d : Span} (h : t.after? d = some e) :
    t.untilInstant e = d := by
  rw [(check?_inRange h).1]
  change ((t : Int) + (d : Int) - t).toNat = d
  omega

theorem Tick.after?_mono {t : Tick} {d d' : Span} (hd : d ≤ d') (h : (t.after? d').isSome = true) :
    (t.after? d).isSome = true := by
  unfold after? at h ⊢
  split at h
  · rename_i hlt
    rw [if_pos (Nat.lt_of_le_of_lt (Nat.add_le_add_left hd t) hlt)]
    rfl
  · cases h

namespace Accounts

variable {w : World} {ctx : Context}

theorem yields_refused {α : Type} (w : World) {r : Except TokenRefusal α} {x : TokenRefusal}
    (h : r = .error x) : (decoded r).run.Yields w w (.error .unauthorized) := by
  subst h
  cases x <;> rfl

theorem yields_decoded {α : Type} (w : World) {r : Except TokenRefusal α} {claims : α}
    (h : r = .ok claims) : (decoded r).run.Yields w w (.ok claims) := by
  subst h
  rfl

theorem yields_confirm (hw : w.Healthy) (hl : w.Live ctx) (id : String) (claimed : Subject) :
    ∃ v, (confirm ctx id claimed).run.Yields w v
        (if w.store.peek w.now id = some claimed.name then .ok claimed else .error .unauthorized) ∧
      w.Serves v 0 ∧ w.store.Reads w.now v.store := by
  obtain ⟨v, hv, hserves, hreads⟩ := Tokens.yields_resolve hw hl id
  refine ⟨v, ?_, hserves, hreads⟩
  cases hp : w.store.peek w.now id with
  | none =>
    rw [hp] at hv
    exact hv.adapt.run_error
  | some name =>
    rw [hp] at hv
    refine hv.adapt.run_bind ?_
    by_cases hn : (⟨name⟩ : Subject) = claimed
    · subst hn
      rw [if_pos rfl, if_pos rfl]
      rfl
    · have hne : ¬ some name = some claimed.name := fun h => hn (by cases h; rfl)
      rw [if_neg hn, if_neg hne]
      rfl

theorem yields_authenticate (hw : w.Healthy) (hl : w.Live ctx) (token : String) :
    ∃ v, (authenticate ctx token).run.Yields w v (w.admits token) ∧ w.Serves v 0 ∧
      w.store.Reads w.now v.store := by
  have hclock : Accounts.clock.run.Yields w w (.ok w.clock) := rfl
  unfold World.admits
  cases hc : AccessClaims.ofToken w.clock.wall token with
  | error x =>
    exact ⟨w, hclock.run_bind (yields_refused w hc).run_error, .refl w, .refl _ _⟩
  | ok claims =>
    obtain ⟨v, hv, hserves, hreads⟩ := yields_confirm hw hl claims.accessId claims.subject
    refine ⟨v, hclock.run_bind ((yields_decoded w hc).run_bind ?_), hserves, hreads⟩
    simp only
    split
    · rename_i hp
      rw [if_pos hp] at hv
      exact hv.run_bind rfl
    · rename_i hp
      rw [if_neg hp] at hv
      exact hv.run_error

theorem yields_logout_refused (hw : w.Healthy) (hl : w.Live ctx) {token : String} {e : AccountError}
    (ha : w.admits token = .error e) :
    ∃ v, (logout ctx token).run.Yields w v (.error e) ∧ w.Serves v 0 ∧
      w.store.Reads w.now v.store := by
  obtain ⟨v, hv, hserves, hreads⟩ := yields_authenticate hw hl token
  rw [ha] at hv
  exact ⟨v, hv.run_error, hserves, hreads⟩

theorem yields_logout (hw : w.Healthy) (hl : w.Live ctx) {token : String} {access : Access}
    (ha : w.admits token = .ok access) :
    ∃ v r, (logout ctx token).run.Yields w v r ∧ w.Serves v 0 ∧
      ((w.store.drop access.accessId).drop access.refreshId).Reads w.now v.store := by
  obtain ⟨v, hv, hserves, hreads⟩ := yields_authenticate hw hl token
  rw [ha] at hv
  obtain ⟨x, m, n, hx, -, -, hsx, hxs⟩ := Tokens.yields_revoke (hw.serves hserves)
    (hl.serves hserves) access
  refine ⟨x, _, hv.run_bind hx.adapt, hserves.trans hsx, ?_⟩
  rw [hxs]
  exact (hreads.drop _).drop _

theorem yields_login (hw : w.Healthy) (hl : w.Live ctx) (a : Accounts) (subject : Subject)
    {ea er : Instant} (hr : w.Reaches a.terms ea er) :
    ∃ v, (a.login ctx subject).run.Yields w v
        (.ok (pair subject (w.ids w.minted) (w.ids (w.minted + 1)) ea er)) ∧
      w.Serves v 2 ∧ v.store = w.issue a.terms subject w.store := by
  have hclock : Accounts.clock.run.Yields w w (.ok w.clock) := rfl
  have hfirst : Accounts.mint.run.Yields w w.mint.2 (.ok (w.ids w.minted)) := rfl
  have hsecond : Accounts.mint.run.Yields w.mint.2 w.mint.2.mint.2 (.ok (w.ids (w.minted + 1))) := rfl
  have hminted := (World.Serves.mint w).trans (World.Serves.mint w.mint.2)
  have hvstore : w.mint.2.mint.2.store = w.store := rfl
  generalize w.mint.2.mint.2 = v at hsecond hminted hvstore
  have hea : (expiry w.clock a.terms.access).run.Yields v v (.ok ea) := by
    simp only [expiry, hr.access]
    rfl
  have her : (expiry w.clock a.terms.refresh).run.Yields v v (.ok er) := by
    simp only [expiry, hr.refresh]
    rfl
  have hnow := hminted.now
  have hta := Instant.untilInstant_after hr.access
  have htr := Instant.untilInstant_after hr.refresh
  have hshort : (v.now.after? (v.clock.wall.untilInstant ea)).isSome = true := by
    rw [hnow, hminted.clock, hta]
    exact Tick.after?_mono (Nat.le_of_lt a.terms.access_lt) hr.tick
  have hlong : (v.now.after? (v.clock.wall.untilInstant er)).isSome = true := by
    rw [hnow, hminted.clock, htr]
    exact hr.tick
  obtain ⟨x, hx, hsx, hxs⟩ := Tokens.yields_record (hw.serves hminted) (hl.serves hminted) subject
    (p := pair subject (w.ids w.minted) (w.ids (w.minted + 1)) ea er) hshort hlong
  refine ⟨x, ?_, hminted.trans hsx, ?_⟩
  · exact hclock.run_bind (hfirst.run_bind (hsecond.run_bind (hea.run_bind (her.run_bind
      (hx.adapt.run_bind rfl)))))
  · rw [hxs, pair, hnow, hminted.clock, hta, htr, hvstore]
    rfl

theorem yields_refresh_refused (hw : w.Healthy) (hl : w.Live ctx) (a : Accounts) {token : String}
    {e : AccountError} (hn : w.renews token = .error e) :
    ∃ v, (a.refresh ctx token).run.Yields w v (.error e) ∧ w.Serves v 0 ∧
      w.store.Reads w.now v.store := by
  have hclock : Accounts.clock.run.Yields w w (.ok w.clock) := rfl
  unfold World.renews at hn
  cases hc : RefreshClaims.ofToken w.clock.wall token with
  | error x =>
    rw [hc] at hn
    cases hn
    exact ⟨w, hclock.run_bind (yields_refused w hc).run_error, .refl w, .refl _ _⟩
  | ok claims =>
    obtain ⟨v, hv, hserves, hreads⟩ := yields_confirm hw hl claims.refreshId claims.subject
    rw [hc] at hn
    simp only at hn
    split at hn
    · cases hn
    · rename_i hp
      cases hn
      rw [if_neg hp] at hv
      exact ⟨v, hclock.run_bind ((yields_decoded w hc).run_bind hv.run_error), hserves, hreads⟩

theorem yields_refresh_gone (hw : w.Healthy) (hl : w.Live ctx) (a : Accounts) {p : TokenPair}
    {subject : Subject} (hp : p.Formed subject)
    (hgone : subject.name ≠ "" → w.store.find? w.now p.refreshId = none) :
    ∃ v, (a.refresh ctx p.refreshToken).run.Yields w v (.error .unauthorized) := by
  have hnone : w.renews p.refreshToken = .error .unauthorized := by
    rw [World.renews_of_formed hp, if_neg]
    rintro ⟨hn, -, hpeek⟩
    rw [Store.peek, hgone fun he => hn (by simp [he])] at hpeek
    cases hpeek
  obtain ⟨v, hv, -⟩ := yields_refresh_refused hw hl a hnone
  exact ⟨v, hv⟩

theorem yields_refresh (hw : w.Healthy) (hl : w.Live ctx) (a : Accounts) {token : String}
    {claims : RefreshClaims} {ea er : Instant} (hr : w.Reaches a.terms ea er)
    (hn : w.renews token = .ok claims) :
    ∃ v, (a.refresh ctx token).run.Yields w v
        (.ok (pair claims.subject (w.ids w.minted) (w.ids (w.minted + 1)) ea er)) ∧
      w.Serves v 2 ∧
      (w.issue a.terms claims.subject (w.store.drop claims.refreshId)).Reads w.now v.store := by
  have hclock : Accounts.clock.run.Yields w w (.ok w.clock) := rfl
  unfold World.renews at hn
  cases hc : RefreshClaims.ofToken w.clock.wall token with
  | error x =>
    rw [hc] at hn
    cases hn
  | ok c =>
    obtain ⟨v, hv, hserves, hreads⟩ := yields_confirm hw hl c.refreshId c.subject
    rw [hc] at hn
    simp only at hn
    split at hn
    · rename_i hp
      cases hn
      rw [if_pos hp] at hv
      obtain ⟨x, hx, hsx, hxs⟩ := Tokens.yields_revokeOne (hw.serves hserves) (hl.serves hserves)
        claims.refreshId
      have hthere : (v.store.find? v.now claims.refreshId).isSome = true := by
        rw [hserves.now, hreads _ _ (Nat.le_refl _)]
        obtain ⟨e, he, -⟩ := Option.map_eq_some_iff.1 hp
        exact Option.isSome_of_eq_some he
      rw [if_pos hthere] at hx
      have hvx := hserves.trans hsx
      obtain ⟨y, hy, hsy, hys⟩ := yields_login (hw.serves hvx) (hl.serves hvx) a claims.subject
        (hr.serves hvx)
      have hnow := hvx.now
      have hids := hvx.ids
      have hminted : x.minted = w.minted := hvx.minted
      rw [hids, hminted] at hy
      refine ⟨y, hclock.run_bind ((yields_decoded w hc).run_bind (hv.run_bind
        (hx.adapt.run_bind hy))),
        hvx.trans hsy, ?_⟩
      rw [hys, World.issue, World.issue, hnow, hids, hminted, hxs]
      exact ((hreads.drop _).put _ _).put _ _
    · cases hn

end Accounts

end Registrar
