import Registrar.Proofs.Service
set_option autoImplicit false

namespace Registrar

/-- A pair is closed when its access half is good no more, and spent when its refresh half is. -/
structure Sessions where
  issued : TokenPair → Subject → Prop
  closed : TokenPair → Prop
  spent : TokenPair → Prop

namespace Sessions

def close (t : Sessions) (p : TokenPair) : Sessions :=
  { t with closed := fun q => t.closed q ∨ q = p }

def spend (t : Sessions) (p : TokenPair) : Sessions :=
  { t with spent := fun q => t.spent q ∨ q = p }

def issue (t : Sessions) (p : TokenPair) (subject : Subject) : Sessions :=
  { t with issued := fun q s => t.issued q s ∨ q = p ∧ s = subject }

/-- The store says of each pair what the table says, as long as its halves live. -/
structure Mirrored (ids : Nat → String) (clock : Clock) (minted : Nat) (store : Store)
    (t : Sessions) : Prop where
  unused : ∀ n, minted ≤ n → ∀ later, clock.now ≤ later → store.find? later (ids n) = none
  formed : ∀ {p subject}, t.issued p subject → p.Formed subject
  accessId : ∀ {p subject}, t.issued p subject → ∃ n, n < minted ∧ p.accessId = ids n
  refreshId : ∀ {p subject}, t.issued p subject → ∃ n, n < minted ∧ p.refreshId = ids n
  ordered : ∀ {p subject}, t.issued p subject → p.accessExpiry < p.refreshExpiry
  apart : ∀ {p q subject other}, t.issued p subject → t.issued q other →
    p.accessId = q.accessId ∨ p.refreshId = q.refreshId → p = q ∧ subject = other
  cross : ∀ {p q subject other}, t.issued p subject → t.issued q other → p.accessId ≠ q.refreshId
  access : ∀ {p subject}, t.issued p subject → subject.name.toList ≠ [] → ∀ later : Tick,
    clock.now ≤ later → clock.origin + later < p.accessExpiry →
      (t.closed p → store.peek later p.accessId = none) ∧
        (¬ t.closed p → store.peek later p.accessId = some subject.name)
  refresh : ∀ {p subject}, t.issued p subject → subject.name.toList ≠ [] → ∀ later : Tick,
    clock.now ≤ later → clock.origin + later < p.refreshExpiry →
      (t.spent p → store.peek later p.refreshId = none) ∧
        (¬ t.spent p → store.peek later p.refreshId = some subject.name)

namespace Mirrored

variable {ids : Nat → String} {clock : Clock} {minted : Nat} {store : Store} {t : Sessions}

theorem start {w : World} (hfresh : ∀ n, w.minted ≤ n → w.store.entries.get? (w.ids n) = none) :
    Mirrored w.ids w.clock w.minted w.store ⟨fun _ _ => False, fun _ => False, fun _ => False⟩ where
  unused := fun n hn later _ => by rw [Store.find?, hfresh n hn]; rfl
  formed := nofun
  accessId := nofun
  refreshId := nofun
  ordered := nofun
  apart := nofun
  cross := nofun
  access := nofun
  refresh := nofun

theorem aside (h : t.Mirrored ids clock minted store) {now : Tick} {count : Nat} {other : Store}
    (hnow : clock.now ≤ now) (hcount : minted ≤ count)
    (hreads : ∀ n later, clock.now ≤ later → other.find? later (ids n) = store.find? later (ids n)) :
    t.Mirrored ids { clock with now := now } count other where
  unused := fun n hn later hl => by
    have hl := Nat.le_trans hnow hl
    rw [hreads n later hl, h.unused n (Nat.le_trans hcount hn) later hl]
  formed := h.formed
  accessId := fun hp => by
    obtain ⟨n, hn, he⟩ := h.accessId hp
    exact ⟨n, Nat.lt_of_lt_of_le hn hcount, he⟩
  refreshId := fun hp => by
    obtain ⟨n, hn, he⟩ := h.refreshId hp
    exact ⟨n, Nat.lt_of_lt_of_le hn hcount, he⟩
  ordered := h.ordered
  apart := h.apart
  cross := h.cross
  access := fun {p subject} hp hn later hl hlt => by
    have hl := Nat.le_trans hnow hl
    obtain ⟨n, -, he⟩ := h.accessId hp
    have hpeek : other.peek later p.accessId = store.peek later p.accessId := by
      rw [Store.peek, Store.peek, he, hreads n later hl]
    rw [hpeek]
    exact h.access hp hn later hl hlt
  refresh := fun {p subject} hp hn later hl hlt => by
    have hl := Nat.le_trans hnow hl
    obtain ⟨n, -, he⟩ := h.refreshId hp
    have hpeek : other.peek later p.refreshId = store.peek later p.refreshId := by
      rw [Store.peek, Store.peek, he, hreads n later hl]
    rw [hpeek]
    exact h.refresh hp hn later hl hlt

theorem reads (h : t.Mirrored ids clock minted store) {other : Store}
    (hreads : store.Reads clock.now other) : t.Mirrored ids clock minted other :=
  h.aside (Nat.le_refl _) (Nat.le_refl _) fun n later hl => hreads (ids n) later hl

theorem congr (h : t.Mirrored ids clock minted store) {u : Sessions}
    (hissued : ∀ p subject, u.issued p subject ↔ t.issued p subject)
    (hclosed : ∀ p subject, t.issued p subject → subject.name.toList ≠ [] → (u.closed p ↔ t.closed p))
    (hspent : ∀ p subject, t.issued p subject → subject.name.toList ≠ [] → (u.spent p ↔ t.spent p)) :
    u.Mirrored ids clock minted store where
  unused := h.unused
  formed := fun hp => h.formed ((hissued _ _).1 hp)
  accessId := fun hp => h.accessId ((hissued _ _).1 hp)
  refreshId := fun hp => h.refreshId ((hissued _ _).1 hp)
  ordered := fun hp => h.ordered ((hissued _ _).1 hp)
  apart := fun hp hq => h.apart ((hissued _ _).1 hp) ((hissued _ _).1 hq)
  cross := fun hp hq => h.cross ((hissued _ _).1 hp) ((hissued _ _).1 hq)
  access := fun hp hn later hl hlt => by
    have hp := (hissued _ _).1 hp
    rw [hclosed _ _ hp hn]
    exact h.access hp hn later hl hlt
  refresh := fun hp hn later hl hlt => by
    have hp := (hissued _ _).1 hp
    rw [hspent _ _ hp hn]
    exact h.refresh hp hn later hl hlt

theorem eq_of_access (h : t.Mirrored ids clock minted store) {p q : TokenPair}
    {subject other : Subject}
    (hp : t.issued p subject) (hq : t.issued q other) (he : p.accessToken = q.accessToken) : p = q :=
  (h.apart hp hq (.inl ((h.formed hp).accessId_of_token (h.formed hq) he))).1

theorem eq_of_refresh (h : t.Mirrored ids clock minted store) {p q : TokenPair}
    {subject other : Subject} (hp : t.issued p subject) (hq : t.issued q other)
    (he : p.refreshToken = q.refreshToken) : p = q ∧ subject = other :=
  h.apart hp hq (.inr ((h.formed hp).refreshId_of_token (h.formed hq) he))

theorem unused_drop (h : t.Mirrored ids clock minted store) (key : String) (n : Nat)
    (hn : minted ≤ n) (later : Tick) (hl : clock.now ≤ later) :
    (store.drop key).find? later (ids n) = none := by
  rw [Store.find?_drop, h.unused n hn later hl, ite_self]

theorem peek_drop (store : Store) (now : Tick) (key k : String) :
    (store.drop k).peek now key = if key = k then none else store.peek now key := by
  rw [Store.peek, Store.find?_drop]
  split <;> rfl

theorem drop_access (h : t.Mirrored ids clock minted store) {p : TokenPair} {subject : Subject}
    (hp : t.issued p subject) : (t.close p).Mirrored ids clock minted (store.drop p.accessId) where
  unused := h.unused_drop p.accessId
  formed := h.formed
  accessId := h.accessId
  refreshId := h.refreshId
  ordered := h.ordered
  apart := h.apart
  cross := h.cross
  access := fun {q other} hq hn later hl hlt => by
    rw [peek_drop]
    by_cases hid : q.accessId = p.accessId
    · obtain ⟨rfl, -⟩ := h.apart hq hp (.inl hid)
      exact ⟨fun _ => if_pos rfl, fun hnot => absurd (.inr rfl) hnot⟩
    · have hqp : q ≠ p := fun he => hid (he ▸ rfl)
      rw [if_neg hid]
      simpa [close, hqp] using h.access hq hn later hl hlt
  refresh := fun {q other} hq hn later hl hlt => by
    rw [peek_drop, if_neg (h.cross hp hq).symm]
    exact h.refresh hq hn later hl hlt

theorem drop_refresh (h : t.Mirrored ids clock minted store) {p : TokenPair} {subject : Subject}
    (hp : t.issued p subject) : (t.spend p).Mirrored ids clock minted (store.drop p.refreshId) where
  unused := h.unused_drop p.refreshId
  formed := h.formed
  accessId := h.accessId
  refreshId := h.refreshId
  ordered := h.ordered
  apart := h.apart
  cross := h.cross
  access := fun {q other} hq hn later hl hlt => by
    rw [peek_drop, if_neg (h.cross hq hp)]
    exact h.access hq hn later hl hlt
  refresh := fun {q other} hq hn later hl hlt => by
    rw [peek_drop]
    by_cases hid : q.refreshId = p.refreshId
    · obtain ⟨rfl, -⟩ := h.apart hq hp (.inr hid)
      exact ⟨fun _ => if_pos rfl, fun hnot => absurd (.inr rfl) hnot⟩
    · have hqp : q ≠ p := fun he => hid (he ▸ rfl)
      rw [if_neg hid]
      simpa [spend, hqp] using h.refresh hq hn later hl hlt

section

variable {w : World} {terms : Terms} {ea er : Instant}

theorem find?_issue (terms : Terms) (subject : Subject) (s : Store) (later : Tick) (key : String) :
    (w.issue terms subject s).find? later key =
      if key = w.ids (w.minted + 1) then
        (some ⟨subject.name, some (w.now + terms.refresh)⟩).filter (Entry.live later)
      else if key = w.ids w.minted then
        (some ⟨subject.name, some (w.now + terms.access)⟩).filter (Entry.live later)
      else s.find? later key := by
  rw [World.issue, Store.find?_put, Store.find?_put]

theorem live_before {ttl : Span} {e : Instant} (he : w.clock.wall.after? ttl = some e)
    {later : Tick} (hl : w.clock.origin + later < e) (value : String) :
    Entry.live later ⟨value, some (w.now + ttl)⟩ = true := by
  have hsum : e = w.clock.origin + w.clock.now + ttl := (Instant.check?_inRange he).1
  rw [hsum, Int.add_assoc] at hl
  exact decide_eq_true (Int.ofNat_lt.1 (Int.lt_of_add_lt_add_left hl))

theorem issue (h : t.Mirrored w.ids w.clock w.minted store) (hinj : Function.Injective w.ids)
    (hbare : ∀ n, Plain.Bare (w.ids n)) (hr : w.Reaches terms ea er) {subject : Subject} {p : TokenPair}
    (hp : p = Accounts.pair subject (w.ids w.minted) (w.ids (w.minted + 1)) ea er)
    (hopen : ¬ t.closed p) (hgood : ¬ t.spent p) :
    (t.issue p subject).Mirrored w.ids w.clock (w.minted + 2) (w.issue terms subject store) := by
  have hne : ∀ {m n : Nat}, m ≠ n → w.ids m ≠ w.ids n := fun hmn he => hmn (hinj he)
  have hold : ∀ {q other}, t.issued q other → ∀ k, w.minted ≤ k →
      q.accessId ≠ w.ids k ∧ q.refreshId ≠ w.ids k := by
    intro q other hq k hk
    obtain ⟨m, hm, ha⟩ := h.accessId hq
    obtain ⟨n, hn, hr⟩ := h.refreshId hq
    exact ⟨ha ▸ hne (by omega), hr ▸ hne (by omega)⟩
  have haccess : p.accessId = w.ids w.minted := by rw [hp]; rfl
  have hrefresh : p.refreshId = w.ids (w.minted + 1) := by rw [hp]; rfl
  constructor
  · intro n hn later hl
    rw [find?_issue, if_neg (hne (by omega)), if_neg (hne (by omega))]
    exact h.unused n (by omega) later hl
  · rintro q other (hq | ⟨rfl, rfl⟩)
    · exact h.formed hq
    · rw [hp]
      exact .mk (hbare _) (hbare _) (Instant.check?_inRange hr.access).2
        (Instant.check?_inRange hr.refresh).2
  · rintro q other (hq | ⟨rfl, rfl⟩)
    · obtain ⟨n, hn, he⟩ := h.accessId hq
      exact ⟨n, by omega, he⟩
    · exact ⟨w.minted, by omega, haccess⟩
  · rintro q other (hq | ⟨rfl, rfl⟩)
    · obtain ⟨n, hn, he⟩ := h.refreshId hq
      exact ⟨n, by omega, he⟩
    · exact ⟨w.minted + 1, by omega, hrefresh⟩
  · rintro q other (hq | ⟨rfl, rfl⟩)
    · exact h.ordered hq
    · have hea : ea = w.clock.wall + terms.access := (Instant.check?_inRange hr.access).1
      have her : er = w.clock.wall + terms.refresh := (Instant.check?_inRange hr.refresh).1
      rw [hp]
      change ea < er
      rw [hea, her]
      exact Int.add_lt_add_left (Int.ofNat_lt.2 terms.access_lt) _
  · rintro q q' other other' (hq | ⟨rfl, rfl⟩) (hq' | ⟨rfl, rfl⟩) hid
    · exact h.apart hq hq' hid
    · rw [haccess, hrefresh] at hid
      have hq := hold hq
      rcases hid with hid | hid
      · exact absurd hid (hq _ (Nat.le_refl _)).1
      · exact absurd hid (hq _ (Nat.le_succ _)).2
    · rw [haccess, hrefresh] at hid
      have hq' := hold hq'
      rcases hid with hid | hid
      · exact absurd hid.symm (hq' _ (Nat.le_refl _)).1
      · exact absurd hid.symm (hq' _ (Nat.le_succ _)).2
    · exact ⟨rfl, rfl⟩
  · rintro q q' other other' (hq | ⟨rfl, rfl⟩) (hq' | ⟨rfl, rfl⟩)
    · exact h.cross hq hq'
    · rw [hrefresh]
      exact (hold hq _ (Nat.le_succ _)).1
    · rw [haccess]
      exact (hold hq' _ (Nat.le_refl _)).2.symm
    · rw [haccess, hrefresh]
      exact hne (by omega)
  · rintro q other (hq | ⟨rfl, rfl⟩) hn later hl hlt
    · have hkeys := hold hq
      rw [Store.peek, find?_issue, if_neg (hkeys _ (Nat.le_succ _)).1,
        if_neg (hkeys _ (Nat.le_refl _)).1]
      exact h.access hq hn later hl hlt
    · refine ⟨fun hc => absurd hc hopen, fun _ => ?_⟩
      have hlt : w.clock.origin + later < ea := by rw [hp] at hlt; exact hlt
      rw [Store.peek, haccess, find?_issue, if_neg (hne (by omega)), if_pos rfl, Option.filter_some,
        if_pos (live_before hr.access hlt _)]
      rfl
  · rintro q other (hq | ⟨rfl, rfl⟩) hn later hl hlt
    · have hkeys := hold hq
      rw [Store.peek, find?_issue, if_neg (hkeys _ (Nat.le_succ _)).2,
        if_neg (hkeys _ (Nat.le_refl _)).2]
      exact h.refresh hq hn later hl hlt
    · refine ⟨fun hc => absurd hc hgood, fun _ => ?_⟩
      have hlt : w.clock.origin + later < er := by rw [hp] at hlt; exact hlt
      rw [Store.peek, hrefresh, find?_issue, if_pos rfl, Option.filter_some,
        if_pos (live_before hr.refresh hlt _)]
      rfl

variable {p : TokenPair} {subject : Subject}

theorem admits (h : t.Mirrored w.ids w.clock w.minted w.store) (hp : t.issued p subject)
    (hn : subject.name.toList ≠ []) :
    (w.clock.wall < p.accessExpiry.floor ∧ ¬ t.closed p →
        w.admits p.accessToken = .ok ⟨p.accessId, p.refreshId, subject⟩) ∧
      (¬ (w.clock.wall < p.accessExpiry.floor ∧ ¬ t.closed p) →
        w.admits p.accessToken = .error .unauthorized) := by
  rw [World.admits_of_formed (h.formed hp)]
  have hmirror : w.clock.wall < p.accessExpiry.floor → _ := fun hlt =>
    h.access hp hn w.now (Nat.le_refl _) (Int.lt_of_lt_of_le hlt (Instant.floor_le _))
  constructor
  · rintro ⟨hlt, hopen⟩
    rw [if_pos ⟨hn, hlt, (hmirror hlt).2 hopen⟩]
  · intro hnot
    rw [if_neg]
    rintro ⟨-, hlt, hpeek⟩
    have hclosed : t.closed p := Classical.byContradiction fun hopen => hnot ⟨hlt, hopen⟩
    rw [(hmirror hlt).1 hclosed] at hpeek
    cases hpeek

theorem renews (h : t.Mirrored w.ids w.clock w.minted w.store) (hp : t.issued p subject)
    (hn : subject.name.toList ≠ []) :
    (w.clock.wall < p.refreshExpiry.floor ∧ ¬ t.spent p →
        w.renews p.refreshToken = .ok ⟨p.refreshId, subject, p.refreshExpiry.floor⟩) ∧
      (¬ (w.clock.wall < p.refreshExpiry.floor ∧ ¬ t.spent p) →
        w.renews p.refreshToken = .error .unauthorized) := by
  rw [World.renews_of_formed (h.formed hp)]
  have hmirror : w.clock.wall < p.refreshExpiry.floor → _ := fun hlt =>
    h.refresh hp hn w.now (Nat.le_refl _) (Int.lt_of_lt_of_le hlt (Instant.floor_le _))
  constructor
  · rintro ⟨hlt, hgood⟩
    rw [if_pos ⟨hn, hlt, (hmirror hlt).2 hgood⟩]
  · intro hnot
    rw [if_neg]
    rintro ⟨-, hlt, hpeek⟩
    have hspent : t.spent p := Classical.byContradiction fun hgood => hnot ⟨hlt, hgood⟩
    rw [(hmirror hlt).1 hspent] at hpeek
    cases hpeek

end

end Mirrored

end Sessions

end Registrar
