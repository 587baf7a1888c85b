import Registrar.Proofs.Server.Sound
set_option autoImplicit false

namespace Registrar

namespace Identifier

variable {day d : Day}

def numbers (day : Day) (ids : List Identifier) : List Nat :=
  (ids.filter (·.day = day)).map (·.number)

theorem numbers_block (day : Day) (c n : Nat) :
    numbers day (block day c n) = List.range' (c + 1) n := by
  have hall : (block day c n).filter (·.day = day) = block day c n := by
    refine List.filter_eq_self.2 fun i hi => ?_
    obtain ⟨k, -, rfl⟩ := List.mem_map.1 hi
    exact decide_eq_true rfl
  rw [numbers, hall, block, List.map_map]
  exact List.map_id _

theorem numbers_block_of_ne (h : d ≠ day) (c n : Nat) : numbers day (block d c n) = [] := by
  have hnone : (block d c n).filter (·.day = day) = [] := by
    refine List.filter_eq_nil_iff.2 fun i hi => ?_
    obtain ⟨k, -, rfl⟩ := List.mem_map.1 hi
    exact fun hday => h (of_decide_eq_true hday)
  rw [numbers, hnone]
  rfl

def ofText? (day : Day) (text : String) : Option Identifier :=
  (Numeral.nat? (text.toList.drop day.stampChars.length)).map (⟨day, ·⟩)

theorem ofText?_text (i : Identifier) : ofText? i.day i.text = some i := by
  rw [ofText?, text, String.toList_ofList, chars, List.drop_left, Numeral.nat?_padded]
  rfl

end Identifier

/-- The identifiers of an answer. That of a new subject is of the day that the calendar shows. -/
def Output.issued (today : Option Day) : Output → List Identifier
  | .registered subject => (today.bind (Identifier.ofText? · subject.name)).toList
  | .identifiers ids => ids
  | .pair _ | .verified _ | .loggedOut => []

/-- A counter has gone on from one number to another while these were given: they follow one another,
and beyond the last of them nothing has been counted but the last number that there is. -/
structure Numeral.Goes (c : Nat) (ns : List Nat) (c' : Nat) : Prop where
  numbers : ns = List.range' (c + 1) ns.length
  le : c + ns.length ≤ c'
  bound : (c' : Int) ≤ Numeral.maxInt64
  last : c' = c + ns.length ∨ (c' : Int) = Numeral.maxInt64

namespace Numeral.Goes

variable {c c' c'' n : Nat} {ms ns : List Nat}

theorem refl (h : (c : Int) ≤ maxInt64) : Goes c [] c := ⟨rfl, Nat.le_refl c, h, .inl rfl⟩

theorem block (h : ((c + n : Nat) : Int) ≤ maxInt64) : Goes c (List.range' (c + 1) n) (c + n) := by
  have hlength : (List.range' (c + 1) n).length = n := List.length_range'
  exact ⟨by rw [hlength], by omega, h, .inl (by omega)⟩

theorem full (hle : c ≤ c') (h : (c' : Int) = maxInt64) : Goes c [] c' :=
  ⟨rfl, hle, Int.le_of_eq h, .inr h⟩

theorem trans (h : Goes c ms c') (k : Goes c' ns c'') : Goes c (ms ++ ns) c'' := by
  have hle := k.le
  have hbound := k.bound
  rcases h.last with hlast | hlast
  · subst hlast
    refine ⟨?_, ?_, hbound, ?_⟩
    · rw [List.length_append, ← List.range'_append_1, Nat.add_right_comm, ← h.numbers, ← k.numbers]
    · rw [List.length_append, ← Nat.add_assoc]
      exact hle
    · rw [List.length_append, ← Nat.add_assoc]
      exact k.last
  · -- Nothing is given after the last number.
    have hnone : ns.length = 0 := by omega
    have hc : c'' = c' := by omega
    rw [List.length_eq_zero_iff.1 hnone, List.append_nil, hc]
    exact h

theorem le_of_mem (h : Goes c ns c') (hn : n ∈ ns) : n ≤ c' := by
  have hle := h.le
  rw [h.numbers, List.mem_range'_1] at hn
  omega

end Numeral.Goes

theorem Store.count?_of_find?_none {s : Store} {now : Tick} {key : String}
    (h : s.find? now key = none) : s.count? now key = some ((0 : Nat) : Int) := by
  rw [count?, counter, h]
  rfl

namespace World

variable {a : Allocator} {w v u : World} {ids : List Identifier}

/-- What becomes of the counters of an allocator while these identifiers are printed: each goes on by
the numbers of its day, or is removed, and then nothing is printed for its day. -/
def Continues (a : Allocator) (ids : List Identifier) (w v : World) : Prop :=
  ∀ (day : Day) (c : Nat), w.store.count? w.now (a.counterKey day) = some (c : Int) →
    ∃ c' : Nat, v.store.count? v.now (a.counterKey day) = some (c' : Int) ∧
      (Numeral.Goes c (Identifier.numbers day ids) c' ∨
        Identifier.numbers day ids = [] ∧ v.store.find? v.now (a.counterKey day) = none)

theorem Continues.of_lessens (hnow : v.now = w.now)
    (h : ∀ day, w.store.Lessens (a.counterKey day) w.now v.store) : w.Continues a [] v := by
  intro day c hc
  rcases h day with hsame | hgone
  · refine ⟨c, ?_, .inl (.refl (Store.count?_bounds hc).2)⟩
    rw [hnow, Store.count?_congr (hsame w.now (Nat.le_refl _)), hc]
  · have hnone : v.store.find? v.now (a.counterKey day) = none :=
      hgone v.now (Nat.le_of_eq hnow.symm)
    exact ⟨0, Store.count?_of_find?_none hnone, .inr ⟨rfl, hnone⟩⟩

theorem Continues.of_store (hnow : v.now = w.now) (h : v.store = w.store) : w.Continues a [] v :=
  .of_lessens hnow fun _ => Store.lessens_of_get? (by rw [h])

theorem Untouched.continues (h : w.Untouched v) : w.Continues a [] v :=
  .of_store (congrArg Clock.now h.clock) (by rw [h.rest])

theorem Continues.setNow {t : Tick} (ht : w.now ≤ t) : w.Continues a [] (w.setNow t) := by
  intro day c hc
  cases hlater : w.store.find? t (a.counterKey day) with
  | none =>
    have hgone : (w.setNow t).store.find? (w.setNow t).now (a.counterKey day) = none := hlater
    exact ⟨0, Store.count?_of_find?_none hgone, .inr ⟨rfl, hgone⟩⟩
  | some e =>
    have hsame := Store.count?_later ht fun _ => Option.isSome_iff_exists.2 ⟨e, hlater⟩
    exact ⟨c, hsame.trans hc, .inl (.refl (Store.count?_bounds hc).2)⟩

namespace Continues

theorem counts (h : w.Continues a ids v)
    (hw : ∀ day, ∃ c : Nat, w.store.count? w.now (a.counterKey day) = some (c : Int)) (day : Day) :
    ∃ c : Nat, v.store.count? v.now (a.counterKey day) = some (c : Int) := by
  obtain ⟨c, hc⟩ := hw day
  obtain ⟨c', hc', -⟩ := h day c hc
  exact ⟨c', hc'⟩

theorem goes (h : w.Continues a ids v) {day : Day} {c : Nat}
    (hlives : (w.store.find? w.now (a.counterKey day)).isSome →
      (v.store.find? v.now (a.counterKey day)).isSome)
    (hc : w.store.count? w.now (a.counterKey day) = some (c : Int)) : ∃ c' : Nat,
      v.store.count? v.now (a.counterKey day) = some (c' : Int) ∧
        Numeral.Goes c (Identifier.numbers day ids) c' := by
  obtain ⟨c', hc', hgoes | ⟨hnone, hgone⟩⟩ := h day c hc
  · exact ⟨c', hc', hgoes⟩
  · -- What is not there now has not been there before, so both times the counter reads zero.
    have hbefore : w.store.find? w.now (a.counterKey day) = none := by
      cases hfind : w.store.find? w.now (a.counterKey day) with
      | none => rfl
      | some e =>
        rw [hgone, hfind] at hlives
        cases hlives rfl
    obtain rfl : c = 0 := by exact_mod_cast Option.some.inj (hc.symm.trans
      (Store.count?_of_find?_none hbefore))
    exact ⟨0, Store.count?_of_find?_none hgone, hnone ▸ .refl (Store.count?_bounds hc).2⟩

end Continues

theorem Counts.continues {ttl : Span} {day : Day} {c m : Nat}
    (h : w.Counts (a.counterKey day) ttl c m v) (httl : 0 < ttl)
    (hc : w.store.count? w.now (a.counterKey day) = some (c : Int))
    (hle : ((c + m : Nat) : Int) ≤ Numeral.maxInt64)
    (hids : ids = Identifier.block day c m ∨ ids = [] ∧ ((c + m : Nat) : Int) = Numeral.maxInt64) :
    w.Continues a ids v := by
  intro other k hk
  by_cases hday : other = day
  · subst hday
    obtain rfl : c = k := by exact_mod_cast Option.some.inj (hc.symm.trans hk)
    refine ⟨c + m, h.count? httl hc hle, .inl ?_⟩
    rcases hids with rfl | ⟨rfl, hlast⟩
    · rw [Identifier.numbers_block]
      exact .block hle
    · exact .full (Nat.le_add_right c m) hlast
  · have hkey : a.counterKey other ≠ a.counterKey day := fun he =>
      hday (Allocator.counterKey_inj rfl he)
    have hnone : Identifier.numbers other ids = [] := by
      rcases hids with rfl | ⟨rfl, -⟩
      · exact Identifier.numbers_block_of_ne (Ne.symm hday) c m
      · rfl
    refine ⟨k, ?_, .inl ?_⟩
    · rw [h.now, Store.count?_congr (Store.find?_congr (h.others _ hkey)), hk]
    · rw [hnone]
      exact .refl (Store.count?_bounds hk).2

end World

namespace Allocator

theorem yields_allocateToday {a : Allocator} {w v : World} {ctx : Context} {day : Day}
    {r : Except AllocError Identifier} (hday : w.clock.today? = some day)
    (h : (a.allocate ctx day).Yields w v r) : (a.allocateToday ctx).Yields w v r := by
  rw [Flow.Yields, allocateToday, Flow.advance, hday]
  exact h

theorem advance_allocateToday_undated (a : Allocator) {w : World} (ctx : Context)
    (hday : w.clock.today? = none) : (a.allocateToday ctx).advance w = (w, .over none) := by
  rw [allocateToday, Flow.advance, hday]
  rfl

end Allocator

namespace Accounts

variable {a : Accounts} {w v : World} {ctx : Context} {day : Day}

theorem yields_register {i : Identifier} (hday : w.clock.today? = some day)
    (h : (a.allocator.allocate ctx day).Yields w v (.ok i)) :
    (a.register ctx).run.Yields w v (.ok ⟨i.text⟩) :=
  Flow.Yields.run_bind (.adapt (Allocator.yields_allocateToday hday h)) rfl

theorem yields_register_error {e : AllocError} (hday : w.clock.today? = some day)
    (h : (a.allocator.allocate ctx day).Yields w v (.error e)) :
    (a.register ctx).run.Yields w v (.error .internal) :=
  Flow.Yields.run_error (.adapt (Allocator.yields_allocateToday hday h))

theorem advance_register_undated (a : Accounts) (ctx : Context) (hday : w.clock.today? = none) :
    (a.register ctx).run.advance w = (w, .over none) := by
  have hid : ∀ {β : Type} (k : Except AllocError Identifier → Flow β),
      ((a.allocator.allocateToday ctx).bind k).advance w = (w, .over none) :=
    fun k => Flow.advance_bind_over k (a.allocator.advance_allocateToday_undated ctx hday)
  exact Flow.advance_bind_over _ (hid _)

end Accounts

namespace Server

variable {set : Settings} {site : Site} {s t s₀ : Server} {w : World} {day : Day} {c : Nat}

section

variable (h : s.Ready set w) (hw : w.Rooted s.root) (hlive : s.isShutdown = false)
  (ht : 0 < set.timeout.toNat) (hday : w.clock.today? = some day)
  (hcount : w.store.count? w.now (s.accounts.allocator.counterKey day) = some (c : Int))
include h hw hlive ht hday hcount

theorem register_next (hmax : (c : Int) < Numeral.maxInt64) : ∃ v,
    w.Counts (s.accounts.allocator.counterKey day) (s.accounts.allocator.counterTtl w.clock day)
      c 1 v ∧
    s.execute .register = (.finished (.ok (.registered ⟨Identifier.text ⟨day, c + 1⟩⟩)),
      { s with backend := .memory v }) := by
  obtain ⟨v, r, hv, rfl, hcounts⟩ := Flow.request_counts hw (h.isCancelled_root hlive) h.still
    (h.timeout_pos ht) h.isSome_after?_timeout (k := fun ctx => (s.accounts.register ctx).run)
    (Q := (· = .ok ⟨Identifier.text ⟨day, c + 1⟩⟩))
    fun ctx u hclock hstore hhealthy hfree hctx => by
      have hnow : u.now = w.now := congrArg Clock.now hclock
      obtain ⟨v, hv, hcounts⟩ := Allocator.yields_allocate hfree hhealthy hctx (hclock ▸ h.sane)
        h.grace_le (by rw [hstore, hnow, hcount]) hmax
      exact ⟨v, _, Accounts.yields_register (hclock ▸ hday) hv, rfl, hclock ▸ hcounts⟩
  exact ⟨v, hcounts, request_eq h.backend .registered hv hcounts.still.orphans⟩

theorem register_full (hmax : ¬ (c : Int) < Numeral.maxInt64) : ∃ v,
    w.Counts (s.accounts.allocator.counterKey day) (s.accounts.allocator.counterTtl w.clock day)
      c 0 v ∧
    s.execute .register = (.finished (.error (.account .internal)),
      { s with backend := .memory v }) := by
  obtain ⟨v, r, hv, rfl, hcounts⟩ := Flow.request_counts hw (h.isCancelled_root hlive) h.still
    (h.timeout_pos ht) h.isSome_after?_timeout (k := fun ctx => (s.accounts.register ctx).run)
    (Q := (· = .error .internal))
    fun ctx u hclock hstore hhealthy hfree hctx => by
      have hnow : u.now = w.now := congrArg Clock.now hclock
      obtain ⟨v, e, hv, hcounts⟩ := Allocator.yields_allocate_full hfree hhealthy hctx
        (by rw [hstore, hnow, hcount]) hmax
      exact ⟨v, _, Accounts.yields_register_error (hclock ▸ hday) hv, rfl, hclock ▸ hcounts⟩
  exact ⟨v, hcounts, request_eq h.backend .registered hv hcounts.still.orphans⟩

end

def printed (s : Server) (c : Command) : List Identifier :=
  match (s.execute c).1 with
  | .finished (.ok o) => o.issued s.backend.clock.today?
  | .finished (.error _) | .crashed | .dropped => []

theorem printed_of_not_ok {c : Command} (h : ∀ o, (s.execute c).1 ≠ .finished (.ok o)) :
    s.printed c = [] := by
  unfold printed
  split
  · rename_i o ho
    exact absurd ho (h o)
  · rfl
  · rfl
  · rfl

theorem request_gives {α : Type} {give : α → Output} {f : Context → AccountFlow α} {o : Output}
    (h : (s.request give f).1 = .finished (.ok o)) : ∃ a, o = give a := by
  unfold request at h
  split at h
  · rename_i a _ _ _
    cases h
    exact ⟨a, rfl⟩
  · cases h
  · cases h
  · cases h

theorem request_issues {α : Type} (give : α → Output)
    (hgive : ∀ a today, (give a).issued today = [])
    {f : Context → AccountFlow α} {o : Output} (h : (s.request give f).1 = .finished (.ok o))
    (today : Option Day) : o.issued today = [] := by
  obtain ⟨a, rfl⟩ := request_gives h
  exact hgive a today

theorem printed_of_not_counts {c : Command} (h : c.counts = false) : s.printed c = [] := by
  unfold printed
  split
  · rename_i o ho
    cases c with
    | register => cases h
    | allocate count day => cases h
    | login subject => exact request_issues _ (fun _ _ => rfl) ho _
    | verify token => exact request_issues _ (fun _ _ => rfl) ho _
    | logout token => exact request_issues _ (fun _ _ => rfl) ho _
    | refresh token => exact request_issues _ (fun _ _ => rfl) ho _
    | shell => cases ho
  · rfl
  · rfl
  · rfl

theorem execute_allocate (s : Server) (count : Nat) (text : Option String) :
    (∃ d, s.execute (.allocate count text) = s.batch d count) ∨
      ∃ e, s.execute (.allocate count text) = (e, s) ∧ ∀ o, e ≠ .finished (.ok o) := by
  unfold execute
  cases text with
  | none =>
    cases s.backend.clock.today? with
    | some d => exact .inl ⟨d, rfl⟩
    | none => exact .inr ⟨_, rfl, fun o ho => by cases ho⟩
  | some text =>
    simp only
    cases Day.ofStamp text with
    | ok d => exact .inl ⟨d, rfl⟩
    | error fault => exact .inr ⟨_, rfl, fun o ho => by cases ho⟩

theorem printed_batch {c : Command} {d : Day} {count : Nat}
    {r : Except AccountError (List Identifier)} (hc : s.execute c = s.batch d count)
    (hr : s.allocateMany d count = (.finished r, t)) :
    s.printed c = r.toOption.getD [] := by
  unfold printed
  rw [hc, batch, hr]
  cases r <;> rfl

theorem printed_batch_crashed {c : Command} {d : Day} {count : Nat}
    (hc : s.execute c = s.batch d count) (hcount : ¬ count < batchLimit) : s.printed c = [] := by
  unfold printed
  rw [hc, batch, allocateMany_crashed s d hcount]

theorem register_crashed (h : s.Ready set w) (hday : w.clock.today? = none) : ∃ v,
    w.Untouched v ∧ s.execute .register = (.crashed, { s with backend := .memory v }) := by
  have hadvance : ∃ v, (s.underRequest fun ctx => (s.accounts.register ctx).run).advance w =
      (v, .over none) ∧ w.Untouched v := by
    unfold underRequest
    rw [Flow.advance]
    cases hc : s.root.child w.signals w.now s.timeout with
    | none => exact ⟨w, rfl, .refl w⟩
    | some r =>
      refine ⟨{ w with signals := r.2 }, ?_, ⟨(Context.lineage_child hc).2, rfl⟩⟩
      exact Accounts.advance_register_undated s.accounts r.1 hday
  obtain ⟨v, hv, hsame⟩ := hadvance
  exact ⟨v, hsame, request_eq h.backend .registered hv (hsame.orphans.trans h.still.orphans)⟩

theorem printed_shutdown (hdown : s.isShutdown = true) (hb : s.backend.AtRest) (c : Command) :
    s.printed c = [] := by
  cases c with
  | register =>
    have hbarred : ∀ ctx, (s.accounts.register ctx).run.Barred ctx .cancelled s.backend.clock _ :=
      fun ctx => s.accounts.barred_register
    obtain ⟨os, b, hrun, -, hlength, hos⟩ := run_shutdown hdown hb 1 hbarred
    obtain ⟨p, rfl⟩ := List.length_eq_one_iff.1 hlength
    refine printed_of_not_ok fun o ho => ?_
    have hrequest : (s.request .registered s.accounts.register).1 = .finished (.ok o) := ho
    unfold request at hrequest
    rw [show [s.underRequest fun ctx => (s.accounts.register ctx).run] =
      List.replicate 1 (s.underRequest fun ctx => (s.accounts.register ctx).run) from rfl,
      hrun] at hrequest
    rcases hos p List.mem_cons_self with rfl | rfl
    · cases hrequest
    · cases hday : s.backend.clock.today? with
      | none =>
        rw [hday] at hrequest
        cases hrequest
      | some d =>
        rw [hday] at hrequest
        cases hrequest
  | allocate count text =>
    rcases s.execute_allocate count text with ⟨d, hd⟩ | ⟨e, he, hnot⟩
    · by_cases hcount : count < batchLimit
      · rcases Nat.eq_zero_or_pos count with rfl | hpos
        · obtain ⟨os, b, hrun, -, hlength, -⟩ := run_shutdown hdown hb 0
            fun ctx => s.accounts.allocator.barred_allocate d
          obtain rfl : os = [] := List.length_eq_zero_iff.1 hlength
          have hnone := allocateMany_eq s d hcount
          rw [allocation, hrun] at hnone
          exact (printed_batch hd hnone).trans (List.mergeSort_nil)
        · obtain ⟨b, hrefused, -⟩ := allocateMany_shutdown hdown hb d hpos hcount
          exact printed_batch hd hrefused
      · exact printed_batch_crashed hd hcount
    · refine printed_of_not_ok fun o ho => hnot o ?_
      rw [← ho, he]
  | _ => exact printed_of_not_counts rfl

namespace Sound

theorem batch_continues (h : s.Sound set site w) (hlive : s.isShutdown = false)
    (ht : 0 < set.timeout.toNat)
    (hcount : w.store.count? w.now (s.accounts.allocator.counterKey day) = some (c : Int))
    {n : Nat} {cmd : Command} (hcmd : s.execute cmd = s.batch day n) : ∃ v,
      (s.execute cmd).2 = { s with backend := .memory v } ∧
        w.Continues s.accounts.allocator (s.printed cmd) v := by
  rw [hcmd, batch_snd]
  by_cases hfits : n < batchLimit
  · obtain ⟨m, v, hle, -, hm, hcounts, heq⟩ :=
      allocateMany_counts h.ready h.rooted hlive ht hcount hfits
    rw [printed_batch hcmd heq]
    refine ⟨v, congrArg Prod.snd heq, hcounts.continues
      (s.accounts.allocator.counterTtl_pos h.ready.grace_pos w.clock day) hcount hle ?_⟩
    by_cases hmn : m = n
    · subst hmn
      rw [if_pos rfl]
      exact .inl rfl
    · rw [if_neg hmn]
      exact .inr ⟨rfl, hm.resolve_left hmn⟩
  · rw [printed_batch_crashed hcmd hfits, allocateMany_crashed s day hfits]
    exact ⟨w, by rw [← h.ready.backend], .of_store rfl rfl⟩

theorem register_continues (h : s.Sound set site w) (hlive : s.isShutdown = false)
    (ht : 0 < set.timeout.toNat)
    (hcounts : ∀ day, ∃ c : Nat,
      w.store.count? w.now (s.accounts.allocator.counterKey day) = some (c : Int)) : ∃ v,
      (s.execute .register).2 = { s with backend := .memory v } ∧
        w.Continues s.accounts.allocator (s.printed .register) v := by
  have hclock : s.backend.clock = w.clock := by
    rw [h.ready.backend]
    rfl
  cases hday : w.clock.today? with
  | none =>
    obtain ⟨v, hsame, heq⟩ := register_crashed h.ready hday
    rw [printed_of_not_ok fun o ho => by rw [heq] at ho; cases ho]
    exact ⟨v, congrArg Prod.snd heq, hsame.continues⟩
  | some day =>
    obtain ⟨c, hcount⟩ := hcounts day
    have httl := s.accounts.allocator.counterTtl_pos h.ready.grace_pos w.clock day
    have hbound := (Store.count?_bounds hcount).2
    by_cases hmax : (c : Int) < Numeral.maxInt64
    · obtain ⟨v, hv, heq⟩ := register_next h.ready h.rooted hlive ht hday hcount hmax
      refine ⟨v, congrArg Prod.snd heq, hv.continues httl hcount (by omega) (.inl ?_)⟩
      unfold printed
      rw [heq, hclock, hday]
      exact congrArg Option.toList (Identifier.ofText?_text ⟨day, c + 1⟩)
    · obtain ⟨v, hv, heq⟩ := register_full h.ready h.rooted hlive ht hday hcount hmax
      refine ⟨v, congrArg Prod.snd heq, hv.continues httl hcount (by omega) (.inr ⟨?_, by omega⟩)⟩
      exact printed_of_not_ok fun o ho => by rw [heq] at ho; cases ho

/-- While a command is carried out the counters go on by what it prints, if none of them can be taken
for an entry of a token. -/
theorem execute_continues (h : s.Sound set site w) (ht : 0 < set.timeout.toNat)
    (hids : ∀ n day, site.ids n ≠ s.accounts.allocator.counterKey day)
    (hcounts : ∀ day, ∃ c : Nat,
      w.store.count? w.now (s.accounts.allocator.counterKey day) = some (c : Int)) (cmd : Command) :
    ∃ v, (s.execute cmd).2 = { s with backend := .memory v } ∧
      ({ s with backend := .memory v } : Server).Sound set site v ∧
      w.Continues s.accounts.allocator (s.printed cmd) v := by
  obtain ⟨v, hv, hsound, hkeeps⟩ := h.execute cmd
  refine ⟨v, hv, hsound, ?_⟩
  have hsame : ∀ u, (s.execute cmd).2 = { s with backend := .memory u } → u = v := fun u hu =>
    backend_inj (hu.symm.trans hv)
  cases hlive : s.isShutdown with
  | true =>
    have hrest : s.backend.AtRest := by
      rw [h.ready.backend]
      exact h.ready.still.orphans
    obtain ⟨b, hb, huntouched⟩ := execute_shutdown hlive hrest cmd
    rw [h.ready.backend] at huntouched
    cases b with
    | redis l => exact huntouched.elim
    | memory u =>
      rw [printed_shutdown hlive hrest cmd, ← hsame u hb]
      exact huntouched.continues
  | false =>
    cases hcount : cmd.counts with
    | false =>
      have hkept := hkeeps (fun key => ∃ day, key = s.accounts.allocator.counterKey day)
        (fun n ⟨day, hday⟩ => hids n day hday) fun hc => by rw [hcount] at hc; cases hc
      rw [printed_of_not_counts hcount]
      exact .of_lessens hkept.now fun day => hkept.entry _ ⟨day, rfl⟩
    | true =>
      cases cmd with
      | register =>
        obtain ⟨u, hu, hcontinues⟩ := h.register_continues hlive ht hcounts
        rwa [← hsame u hu]
      | allocate n text =>
        rcases s.execute_allocate n text with ⟨d, hd⟩ | ⟨e, he, hnot⟩
        · obtain ⟨c, hc⟩ := hcounts d
          obtain ⟨u, hu, hcontinues⟩ := h.batch_continues hlive ht hc hd
          rwa [← hsame u hu]
        · rw [printed_of_not_ok fun o ho => hnot o (by rw [← ho, he]), ← hsame w ?_]
          · exact .of_store rfl rfl
          · rw [he, ← h.ready.backend]
      | _ => cases hcount

end Sound

end Server

end Registrar
