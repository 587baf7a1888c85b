import Registrar.Program
import Registrar.Proofs.Server
import Registrar.Proofs.Text.Utf8
/-!
The shell over a whole input. It reads the input as the lines of a text (`run_encode`), and each line
that says something is answered by one line of output, in the state that the lines before it have
left behind. Main statement: `answers_line_by_line`.
-/
set_option autoImplicit false

namespace Registrar

theorem wordsFrom_break (word cs : List Char) :
    wordsFrom word (cs ++ ['\n']) = wordsFrom word cs := by
  have hbreak : isBlank '\n' = true := by decide
  induction cs generalizing word with
  | nil => by_cases hw : word = [] <;> simp [wordsFrom, hbreak, hw]
  | cons c cs ih => simp only [List.cons_append, wordsFrom, ih]

theorem wordsFrom_eq_nil_iff (word cs : List Char) :
    wordsFrom word cs = [] ↔ word = [] ∧ ∀ c ∈ cs, isBlank c = true := by
  induction cs generalizing word with
  | nil => by_cases hw : word = [] <;> simp [wordsFrom, hw]
  | cons c cs ih =>
    by_cases hc : isBlank c = true
    · by_cases hw : word = [] <;> simp [wordsFrom, hc, hw, ih]
    · simp [wordsFrom, hc, ih]

theorem words_eq_nil_iff (s : String) : words s = [] ↔ ∀ c ∈ s.toList, isBlank c = true := by
  simp [words, wordsFrom_eq_nil_iff]

namespace Json

theorem break_not_mem_escaped (c : Char) : '\n' ∉ escaped c := by
  unfold escaped
  split
  any_goals decide
  rename_i hbreak _ _ _ _
  split
  · have hdigit : ∀ n, hexDigit n ≠ '\n' := by
      intro n
      have hlt : n % 16 < 16 := Nat.mod_lt n (by decide)
      unfold hexDigit
      generalize n % 16 = k at hlt
      revert k
      decide
    simp [Ne.symm (hdigit _)]
  · simpa using fun h => hbreak h.symm

theorem break_not_mem_quoted (s : String) : '\n' ∉ (quoted s).toList := by
  simp [quoted, break_not_mem_escaped]

theorem break_not_mem_intercalate {parts : List String} (h : ∀ p ∈ parts, '\n' ∉ p.toList) :
    '\n' ∉ (",".intercalate parts).toList := by
  rw [String.toList_intercalate]
  induction parts with
  | nil => simp
  | cons p parts ih =>
    have hp := h p List.mem_cons_self
    have hparts := ih fun q hq => h q (List.mem_cons_of_mem p hq)
    cases parts with
    | nil => simpa using hp
    | cons q parts => simp_all

theorem compactItems_eq (js : List Json) : compactItems js = js.map compact := by
  induction js with
  | nil => rfl
  | cons j js ih => rw [compactItems, ih, List.map_cons]

theorem compactFields_eq (fs : List (String × Json)) :
    compactFields fs = fs.map fun f => quoted f.1 ++ ":" ++ compact f.2 := by
  induction fs with
  | nil => rfl
  | cons f fs ih => rw [compactFields, ih, List.map_cons]

def OneLine (j : Json) : Prop := '\n' ∉ j.compact.toList

theorem oneLine_text (s : String) : (text s).OneLine := break_not_mem_quoted s

theorem oneLine_list {js : List Json} (h : ∀ j ∈ js, j.OneLine) : (list js).OneLine := by
  have hparts : ∀ p ∈ js.map compact, '\n' ∉ p.toList := by
    intro p hp
    obtain ⟨j, hj, rfl⟩ := List.mem_map.1 hp
    exact h j hj
  rw [OneLine, compact, compactItems_eq]
  simp only [String.toList_append, List.mem_append, not_or]
  exact ⟨⟨by decide, break_not_mem_intercalate hparts⟩, by decide⟩

theorem oneLine_object {fs : List (String × Json)} (h : ∀ f ∈ fs, f.2.OneLine) :
    (object fs).OneLine := by
  have hparts : ∀ p ∈ fs.map (fun f => quoted f.1 ++ ":" ++ compact f.2), '\n' ∉ p.toList := by
    intro p hp
    obtain ⟨f, hf, rfl⟩ := List.mem_map.1 hp
    simp only [String.toList_append, List.mem_append, not_or]
    exact ⟨⟨break_not_mem_quoted f.1, by decide⟩, h f hf⟩
  rw [OneLine, compact, compactFields_eq]
  simp only [String.toList_append, List.mem_append, not_or]
  exact ⟨⟨by decide, break_not_mem_intercalate hparts⟩, by decide⟩

end Json

theorem Output.oneLine (o : Output) : o.json.OneLine := by
  cases o with
  | registered subject => exact Json.oneLine_object (by simp [Subject.json, Json.oneLine_text])
  | pair p => exact Json.oneLine_object (by simp [Json.oneLine_text])
  | verified access => exact Json.oneLine_object (by simp [Subject.json, Json.oneLine_text])
  | loggedOut => unfold Json.OneLine; decide
  | identifiers ids =>
    refine Json.oneLine_object fun f hf => ?_
    obtain rfl := List.mem_singleton.1 hf
    refine Json.oneLine_list fun j hj => ?_
    obtain ⟨i, -, rfl⟩ := List.mem_map.1 hj
    exact Json.oneLine_text i.text

namespace Shell

open Utf8 (encode encodeChars encodeChars_cons encodeChars_append decode_encodeChars)

theorem oneLine_error (message : String) : (errorJson message).OneLine :=
  Json.oneLine_object (by simp [Json.oneLine_text])

def runTexts (s : Server) : List String → List Json × Finish × Server
  | [] => ([], .atEnd, s.shutdown)
  | line :: rest =>
    match words line with
    | [] => runTexts s rest
    | ws =>
      match respond s ws with
      | (none, s) => ([], .crashed, s)
      | (some j, s) =>
        let (js, finish, s) := runTexts s rest
        (j :: js, finish, s)

theorem splitLines_append (acc bs rest : List UInt8) (h : 10 ∉ bs) :
    splitLines acc (bs ++ rest) = splitLines (bs.reverse ++ acc) rest := by
  induction bs generalizing acc with
  | nil => rfl
  | cons b bs ih =>
    obtain ⟨hb, hbs⟩ := not_or.1 (mt List.mem_cons.2 h)
    rw [List.cons_append, splitLines, if_neg (Ne.symm hb), ih (b :: acc) hbs]
    simp

theorem runLines_cons {s : Server} {line : List UInt8} {text other : String}
    {rest : List (List UInt8)}
    {lines : List String} (hd : Utf8.decode line = .ok text) (hw : words text = words other)
    (ih : ∀ s, runLines s rest = runTexts s lines) :
    runLines s (line :: rest) = runTexts s (other :: lines) := by
  simp only [runLines, hd, runTexts, hw]
  cases words other with
  | nil => exact ih s
  | cons w ws =>
    dsimp only
    rcases respond s (w :: ws) with ⟨- | j, left⟩
    · rfl
    · exact congrArg (fun r : List Json × Finish × Server => (j :: r.1, r.2.1, r.2.2)) (ih left)

theorem runLines_chars (s : Server) (acc cs : List Char) :
    runLines s (splitLines (encodeChars acc.reverse).reverse (encodeChars cs)) =
      runTexts s ((stretchesFrom (· == '\n') acc cs).map String.ofList) := by
  induction cs generalizing s acc with
  | nil =>
    rw [show encodeChars [] = [] from rfl, splitLines, stretchesFrom]
    split
    · rename_i hnone
      have hread := Utf8.decodeFrom_encodeChars 0 acc.reverse
      rw [List.reverse_eq_nil_iff.1 hnone] at hread
      obtain rfl := List.reverse_eq_nil_iff.1 (Except.ok.inj hread).symm
      rfl
    · rw [List.reverse_reverse]
      exact runLines_cons (decode_encodeChars _) rfl fun _ => rfl
  | cons c cs ih =>
    rw [encodeChars_cons, stretchesFrom]
    by_cases hc : c = '\n'
    · subst hc
      have hbreak : String.utf8EncodeChar '\n' = [10] := by decide
      have hline : (10 :: (encodeChars acc.reverse).reverse).reverse =
          encodeChars (acc.reverse ++ ['\n']) := by
        rw [encodeChars_append, List.reverse_cons, List.reverse_reverse]
        rfl
      rw [hbreak, List.singleton_append, splitLines, if_pos rfl, hline, if_pos (beq_self_eq_true _),
        List.map_cons]
      refine runLines_cons (decode_encodeChars _) ?_ fun s => ih s []
      simp [words, wordsFrom_break]
    · have hacc : (String.utf8EncodeChar c).reverse ++ (encodeChars acc.reverse).reverse =
          (encodeChars (c :: acc).reverse).reverse := by
        rw [List.reverse_cons, encodeChars_append, encodeChars_cons]
        simp [encodeChars]
      rw [splitLines_append _ _ _ (Utf8.break_not_mem hc), hacc, if_neg (by simpa using hc)]
      exact ih s (c :: acc)

theorem run_encode (s : Server) (text : String) :
    run s (encode text) = runTexts s (Program.lines text) := by
  rw [Utf8.encode_eq]
  exact runLines_chars s [] text.toList

def said (lines : List String) : List String :=
  lines.filter fun line => line.toList.any (!isBlank ·)

def entries (text : String) : List String := said (Program.lines text)

theorem said_cons (line : String) (lines : List String) :
    said (line :: lines) = if words line = [] then said lines else line :: said lines := by
  have hblank : (line.toList.any fun c => !isBlank c) = true ↔ ¬ words line = [] := by
    simp [words_eq_nil_iff]
  unfold said
  rw [List.filter_cons]
  by_cases hw : words line = []
  · rw [if_pos hw, if_neg (fun h => hblank.1 h hw)]
  · rw [if_neg hw, if_pos (hblank.2 hw)]

/-- The server after a line. One that cannot be read leaves it as it is. -/
def after (s : Server) (line : String) : Server :=
  match Command.ofWords (words line) with
  | .error _ => s
  | .ok c => (s.execute c).2

/-- The server as a line of this number finds it. -/
def before (s : Server) (text : String) (i : Nat) : Server := ((entries text).take i).foldl after s

/-- What a line is answered by a server. -/
inductive Answers (s : Server) (line : String) : Json → Prop where
  | unread {e : UsageError} (hw : Command.ofWords (words line) = .error e) :
      Answers s line (errorJson e.message)
  | refused {c : Command} {r : Refusal} (hw : Command.ofWords (words line) = .ok c)
      (hr : (s.execute c).1 = .finished (.error r)) : Answers s line (errorJson r.message)
  | done {c : Command} {o : Output} (hw : Command.ofWords (words line) = .ok c)
      (ho : (s.execute c).1 = .finished (.ok o)) : Answers s line o.json

/-- What a line asks for has an answer. -/
def Ends (s : Server) (line : String) : Prop :=
  ∀ c, Command.ofWords (words line) = .ok c → ∃ r, (s.execute c).1 = .finished r

theorem Answers.oneLine {s : Server} {line : String} {j : Json} (h : Answers s line j) :
    j.OneLine := by
  cases h with
  | unread => exact oneLine_error _
  | refused => exact oneLine_error _
  | done => exact Output.oneLine _

theorem respond_of_ends {s : Server} {line : String} (h : Ends s line) :
    ∃ j, respond s (words line) = (some j, after s line) ∧ Answers s line j := by
  unfold respond after
  cases hw : Command.ofWords (words line) with
  | error e => exact ⟨_, rfl, .unread hw⟩
  | ok c =>
    obtain ⟨r, hr⟩ := h c hw
    simp only
    rw [hr]
    cases r with
    | error r => exact ⟨_, rfl, .refused hw hr⟩
    | ok o => exact ⟨_, rfl, .done hw hr⟩

theorem runTexts_answers {s : Server} {lines : List String}
    (h : ∀ i line, (said lines)[i]? = some line → Ends (((said lines).take i).foldl after s) line) :
    ∃ js, runTexts s lines = (js, .atEnd, ((said lines).foldl after s).shutdown) ∧
      js.length = (said lines).length ∧
      ∀ i line j, (said lines)[i]? = some line → js[i]? = some j →
        Answers (((said lines).take i).foldl after s) line j := by
  induction lines generalizing s with
  | nil => exact ⟨[], rfl, rfl, fun i line j hl => by cases hl⟩
  | cons line lines ih =>
    rw [said_cons] at h ⊢
    by_cases hblank : words line = []
    · rw [if_pos hblank] at h ⊢
      obtain ⟨js, hrun, hrest⟩ := ih h
      exact ⟨js, by simp only [runTexts, hblank, hrun], hrest⟩
    · rw [if_neg hblank] at h ⊢
      have hends : Ends s line := h 0 line rfl
      obtain ⟨j, hj, hanswer⟩ := respond_of_ends hends
      obtain ⟨js, hrun, hlen, hjs⟩ := ih (s := after s line) fun i => h (i + 1)
      refine ⟨j :: js, ?_, by simp [hlen], fun i l k hl hk => ?_⟩
      · obtain ⟨w, ws, hw⟩ := List.exists_cons_of_ne_nil hblank
        rw [runTexts, hw]
        rw [hw] at hj
        simp only [hj, hrun, List.foldl_cons]
      · cases i with
        | zero =>
          obtain rfl := Option.some.inj hl
          obtain rfl := Option.some.inj hk
          exact hanswer
        | succ i => exact hjs i l k hl hk

/-- Whatever text the shell is given, each line that is not blank is answered by one line, in order,
as the server that the lines before it have left behind answers it; then the server is shut down and
the run ends well. -/
theorem answers_line_by_line {s : Server} {text : String}
    (hends : ∀ i line, (entries text)[i]? = some line → Ends (before s text i) line) :
    ∃ answers : List Json,
      run s (encode text) = (answers, .atEnd, (before s text (entries text).length).shutdown) ∧
      Program.runShell s (encode text) = ⟨Program.success, answers.map Json.compact, []⟩ ∧
      answers.length = (entries text).length ∧
      (∀ i line j, (entries text)[i]? = some line → answers[i]? = some j →
        Answers (before s text i) line j ∧ j.OneLine) ∧
      ∀ i line e, (entries text)[i]? = some line → Command.ofWords (words line) = .error e →
        before s text (i + 1) = before s text i := by
  obtain ⟨answers, hrun, hlen, hanswers⟩ := runTexts_answers hends
  have hall : (entries text).take (entries text).length = entries text := List.take_length
  have hshell : run s (encode text) =
      (answers, .atEnd, (before s text (entries text).length).shutdown) := by
    rw [run_encode, hrun, before, hall]
    rfl
  refine ⟨answers, hshell, ?_, hlen, fun i line j hl hj => ?_, fun i line e hl he => ?_⟩
  · simp only [Program.runShell, hshell]
  · exact ⟨hanswers i line j hl hj, (hanswers i line j hl hj).oneLine⟩
  · have htake : (entries text).take (i + 1) = (entries text).take i ++ [line] := by
      rw [List.take_add_one, hl]
      rfl
    rw [before, htake, List.foldl_append]
    simp only [List.foldl_cons, List.foldl_nil, after, he]
    rfl

/-- A batch, a blank line, an unknown command, and a shell in the shell without a line break. -/
def mixed : String := "allocate --count 2\r\n \t\nfrobnicate\nshell"

theorem answers_line_by_line_mixed :
    entries mixed = ["allocate --count 2\r", "frobnicate", "shell"] ∧
    ∃ s, Server.start Server.unbounded Server.newYearSite = (.ok s, []) ∧ ∃ answers : List Json,
      Program.runShell s (encode mixed) = ⟨Program.success, answers.map Json.compact, []⟩ ∧
      answers.length = 3 := by
  have hentries : entries mixed = ["allocate --count 2\r", "frobnicate", "shell"] := by
    decide +kernel
  have hstart : ∃ s, Server.start Server.unbounded Server.newYearSite = (.ok s, []) ∧
      s.backend.clock = Server.newYearSite.clock := ⟨_, rfl, rfl⟩
  obtain ⟨s, hs, hclock⟩ := hstart
  refine ⟨hentries, s, hs, ?_⟩
  obtain ⟨w, hw⟩ := Server.ready_start rfl hs Server.newYearSite_sane
  have hends : ∀ i line, (entries mixed)[i]? = some line → Ends (before s mixed i) line := by
    intro i line hl
    rw [hentries] at hl
    match i, hl with
    | 0, hl =>
      intro c hc
      obtain rfl := Option.some.inj hl
      have hread : (Command.ofWords (words "allocate --count 2\r")).toOption =
          some (.allocate 2 none) := by decide +kernel
      rw [hc] at hread
      obtain rfl := Option.some.inj hread
      obtain ⟨o, v, ho, -, hfits⟩ := hw.execute (.allocate 2 none)
      change ∃ r, (s.execute _).1 = .finished r
      cases o with
      | some r => exact ⟨r, by rw [ho]; rfl⟩
      | none =>
        rw [hw.backend] at hclock
        have hwall : w.clock = Server.newYearSite.clock := hclock
        rw [hwall] at hfits
        exact absurd (by decide +kernel) (hfits rfl)
    | 1, hl =>
      intro c hc
      obtain rfl := Option.some.inj hl
      have hread : (Command.ofWords (words "frobnicate")).toOption = none := by decide +kernel
      rw [hc] at hread
      cases hread
    | 2, hl =>
      intro c hc
      obtain rfl := Option.some.inj hl
      have hread : (Command.ofWords (words "shell")).toOption = some .shell := by decide +kernel
      rw [hc] at hread
      obtain rfl := Option.some.inj hread
      exact ⟨_, rfl⟩
  obtain ⟨answers, -, hrun, hlen, -⟩ := answers_line_by_line hends
  exact ⟨answers, hrun, by rw [hlen, hentries]; rfl⟩

end Shell

end Registrar
