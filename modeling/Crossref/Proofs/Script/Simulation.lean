import Mathlib.Data.List.Infix
import Crossref.Proofs.Script.Literal
import Crossref.Proofs.Script.Scanner
import Crossref.Proofs.Script.Statement

/-!
# Scanner and readers side by side

`Gives source m s told`: where `s` is left of the source, the part `m` of the scanner comes to what
the reader told, and stands where the reader stopped. The relation has no room for a breach.

Steps in a row chain it (`Gives.bind`), and a loop has it if each of its laps does (`Lap`): the lap
ends the loop with what the reader tells, or fails as the reader does, or moves on to a place where
the reader tells the same as here. There is one lemma for each part of the scanner, which cites
those of the parts it is made of.
-/

namespace Crossref.Script.Scan

open Text (bytes bytes_nil bytes_cons bytes_append place place_nil cutAt? cutAt?_place place_add
  place_lt_place isBlank isWordChar ne_append_of_stripLead? stripLead? stripLead?_eq_some_iff)

variable {α β σ : Type} {source s t u r : List Char}

def Gives (source : List Char) (m : Scan α) (s : List Char) :
    Except Failure (α × List Char) → Prop
  | .ok (a, r) => r <:+ source ∧ m source (place source s) = .ok a (place source r)
  | .error f => f.rest <:+ source ∧ ∃ r, r <:+ source ∧
      m source (place source s) = .error (.error (f.inSource source)) (place source r)

/-! ## Steps in a row -/

theorem run_bind (m : Scan α) (k : α → Scan β) (source : List Char) (n : Nat) :
    (m >>= k) source n =
      match m source n with
      | .ok a n => k a source n
      | .error e n => .error e n := by
  show EStateM.bind (m source) (fun a => k a source) n = _
  unfold EStateM.bind
  cases m source n <;> rfl

theorem Gives.pure (hs : s <:+ source) (a : α) : Gives source (pure a) s (.ok (a, s)) := ⟨hs, rfl⟩

theorem Gives.congr {m m' : Scan α} {told : Except Failure (α × List Char)}
    (h : m' source (place source t) = m source (place source s)) (hm : Gives source m s told) :
    Gives source m' t told := by
  cases told with
  | ok _ => exact ⟨hm.1, h.trans hm.2⟩
  | error f =>
      obtain ⟨hf, r, hr, hrun⟩ := hm
      exact ⟨hf, r, hr, h.trans hrun⟩

theorem Gives.bind {m : Scan α} {k : α → Scan β} {a : α} {told : Except Failure (β × List Char)}
    (hm : Gives source m s (.ok (a, u))) (hk : u <:+ source → Gives source (k a) u told) :
    Gives source (m >>= k) s told := by
  refine (hk hm.1).congr ?_
  rw [run_bind, hm.2]

theorem Gives.bind_error {m : Scan α} {f : Failure} (hm : Gives source m s (.error f))
    (k : α → Scan β) : Gives source (m >>= k) s (.error f) := by
  obtain ⟨hf, r, hr, hrun⟩ := hm
  refine ⟨hf, r, hr, ?_⟩
  rw [run_bind, hrun]

/-- Two readers in a row, and two parts of the scanner. -/
theorem Gives.andThen {m : Scan α} {k : α → Scan β} {told : Except Failure (α × List Char)}
    {next : α × List Char → Except Failure (β × List Char)} (hm : Gives source m s told)
    (hk : ∀ a u, told = .ok (a, u) → u <:+ source → Gives source (k a) u (next (a, u))) :
    Gives source (m >>= k) s (told >>= next) := by
  cases htold : told with
  | ok p => exact (htold ▸ hm).bind (hk p.1 p.2 htold)
  | error f => exact (htold ▸ hm).bind_error k

theorem Gives.map {m : Scan α} {told : Except Failure (α × List Char)} (hm : Gives source m s told)
    (g : α → β) :
    Gives source (m >>= fun a => Pure.pure (g a)) s (told.map fun (a, r) => (g a, r)) := by
  cases told with
  | ok p => exact hm.bind fun hu => Gives.pure hu (g p.1)
  | error f => exact hm.bind_error _

/-! ## Offsets -/

theorem gives_offset (hs : s <:+ source) : Gives source get s (.ok (place source s, s)) :=
  ⟨hs, rfl⟩

theorem gives_source (hs : s <:+ source) : Gives source Scan.source s (.ok (source, s)) := ⟨hs, rfl⟩

theorem gives_cut (hs : s <:+ source) (hr : r <:+ source) :
    Gives source (cut (place source r)) s
      (.ok ((source.take (source.length - r.length), r), s)) := by
  refine (gives_source hs).bind fun hs => ?_
  rw [cutAt?_place hr]
  exact Gives.pure hs _

theorem gives_rest (hs : s <:+ source) : Gives source rest s (.ok (s, s)) :=
  (gives_offset hs).bind fun hs => (gives_cut hs hs).bind fun hs => Gives.pure hs s

theorem gives_moveTo (hs : s <:+ source) (hr : r <:+ source) :
    Gives source (moveTo (place source r)) s (.ok ((), r)) :=
  (gives_cut hs hr).bind fun _ => ⟨hr, rfl⟩

theorem gives_advance (hs : t ++ r <:+ source) :
    Gives source (advance (bytes t)) (t ++ r) (.ok ((), r)) := by
  refine (gives_offset hs).bind fun hs => ?_
  rw [place_add hs]
  exact gives_moveTo hs ((List.suffix_append t r).trans hs)

theorem gives_failAt (hs : s <:+ source) (hr : r <:+ source) (fault : Fault) :
    Gives source (failAt (place source r) fault : Scan α) s (.error ⟨fault, r⟩) :=
  (gives_cut hs hr).bind fun hs => ⟨hr, s, hs, rfl⟩

theorem gives_fail (hs : s <:+ source) (fault : Fault) :
    Gives source (fail fault : Scan α) s (.error ⟨fault, s⟩) :=
  (gives_offset hs).bind fun hs => gives_failAt hs hs fault

theorem gives_minus (hs : s <:+ source) {m n : Nat} (h : n ≤ m) :
    Gives source (minus m n) s (.ok (m - n, s)) := by
  rw [minus, if_pos h]
  exact Gives.pure hs _

theorem gives_word (hs : s <:+ source) {n : Nat} (h : n < UInt32.size) :
    Gives source (word n) s (.ok (n, s)) := by
  rw [word, if_pos h]
  exact Gives.pure hs _

theorem run_attempt (m : Scan α) (source : List Char) (n : Nat) :
    attempt m source n =
      match m source n with
      | .ok a n => .ok (some a) n
      | .error (.error _) n => .ok none n
      | .error (.breach b) n => .error (.breach b) n := by
  show EStateM.tryCatch (EStateM.map some (m source)) _ n = _
  unfold EStateM.tryCatch EStateM.map
  cases m source n with
  | ok a n => rfl
  | error e n => cases e <;> rfl

/-- Where `m` fails, the scanner may be left anywhere. -/
theorem gives_attempt {m : Scan α} {told : Except Failure (α × List Char)}
    (hm : Gives source m s told) :
    ∃ r, (∀ p, told = .ok p → r = p.2) ∧
      Gives source (attempt m) s (.ok (told.toOption.map Prod.fst, r)) := by
  cases told with
  | ok p =>
      refine ⟨p.2, fun q hq => ?_, hm.1, ?_⟩
      · cases hq
        rfl
      · rw [run_attempt, hm.2]
        rfl
  | error f =>
      obtain ⟨-, r, hr, hrun⟩ := hm
      refine ⟨r, fun q hq => ?_, hr, ?_⟩
      · cases hq
      · rw [run_attempt, hrun]
        rfl

/-! ## Loops -/

/-- One lap at `s` and what the reader tells there: it ends the loop, fails, or leaves something
to tell at a place further right. -/
inductive Lap (source : List Char) (lap : σ → Scan (σ ⊕ β))
    (Tells : σ → List Char → Except Failure (β × List Char) → Prop) (x : σ) (s : List Char) :
    Prop where
  | ends {y : β} {r : List Char} (h : Gives source (lap x) s (.ok (.inr y, r)))
      (htells : Tells x s (.ok (y, r)))
  | fails {f : Failure} (h : Gives source (lap x) s (.error f)) (htells : Tells x s (.error f))
  | goesOn {z : σ} {r : List Char} (h : Gives source (lap x) s (.ok (.inl z, r)))
      (hlt : r.length < s.length)
      (htells : ∀ told, Tells z r told → Tells x s told)

/-- No more laps are run than characters are left, so laps do not run out. -/
theorem exists_tells_of_laps {lap : σ → Scan (σ ⊕ β)}
    {Tells : σ → List Char → Except Failure (β × List Char) → Prop}
    (hlap : ∀ x s, s <:+ source → Lap source lap Tells x s) {left : Nat} {x : σ}
    (hs : s <:+ source) (hleft : s.length ≤ left) :
    ∃ told, Tells x s told ∧ Gives source (laps lap left x) s told := by
  induction left generalizing x s with
  | zero =>
      unfold laps
      rcases hlap x s hs with ⟨h, htells⟩ | ⟨h, htells⟩ | ⟨h, hlt, htells⟩
      · exact ⟨_, htells, h.bind fun hr => Gives.pure hr _⟩
      · exact ⟨_, htells, h.bind_error _⟩
      · exact absurd (Nat.lt_of_lt_of_le hlt hleft) (Nat.not_lt_zero _)
  | succ left ih =>
      unfold laps
      rcases hlap x s hs with ⟨h, htells⟩ | ⟨h, htells⟩ | ⟨h, hlt, htells⟩
      · exact ⟨_, htells, (gives_offset hs).bind fun _ => h.bind fun hr => Gives.pure hr _⟩
      · exact ⟨_, htells, (gives_offset hs).bind fun _ => h.bind_error _⟩
      · obtain ⟨told, htold, hgives⟩ := ih h.1 (Nat.le_of_lt_succ (hlt.trans_le hleft))
        refine ⟨told, htells told htold, (gives_offset hs).bind fun _ => h.bind fun hr => ?_⟩
        refine (gives_offset hr).bind fun _ => ?_
        rw [if_pos (place_lt_place hs hr hlt)]
        exact hgives

theorem exists_tells_of_loop {lap : σ → Scan (σ ⊕ β)}
    {Tells : σ → List Char → Except Failure (β × List Char) → Prop}
    (hlap : ∀ x s, s <:+ source → Lap source lap Tells x s) (x : σ) (hs : s <:+ source) :
    ∃ told, Tells x s told ∧ Gives source (loop lap x) s told := by
  obtain ⟨told, htold, hgives⟩ := exists_tells_of_laps hlap (x := x) hs (Nat.le_refl _)
  exact ⟨told, htold, (gives_rest hs).bind fun _ => hgives⟩

/-- Where the reader is a function, the loop comes to its result. -/
theorem gives_loop {lap : σ → Scan (σ ⊕ β)} {tell : σ → List Char → Except Failure (β × List Char)}
    (hlap : ∀ x s, s <:+ source → Lap source lap (fun x s told => told = tell x s) x s) (x : σ)
    (hs : s <:+ source) : Gives source (loop lap x) s (tell x s) := by
  obtain ⟨told, rfl, hgives⟩ := exists_tells_of_loop hlap x hs
  exact hgives

/-! ## Characters and tokens -/

theorem gives_peek (hs : s <:+ source) : Gives source peek s (.ok (s.head?, s)) :=
  (gives_rest hs).bind fun hs => Gives.pure hs _

theorem gives_bump {c : Char} (hs : c :: s <:+ source) :
    Gives source bump (c :: s) (.ok (some c, s)) := by
  refine (gives_peek hs).bind fun hs => ?_
  have hadvance := gives_advance (t := [c]) hs
  rw [bytes_cons, bytes_nil, Nat.add_zero] at hadvance
  exact hadvance.bind fun hs => Gives.pure hs _

theorem gives_bump_nil : Gives source bump [] (.ok (none, [])) :=
  (gives_peek List.nil_suffix).bind fun hs => Gives.pure hs _

theorem gives_atEnd (hs : s <:+ source) : Gives source atEnd s (.ok (s.isEmpty, s)) := by
  refine (gives_source hs).bind fun hs => (gives_offset hs).bind fun hs => ?_
  have hend : decide (bytes source ≤ place source s) = s.isEmpty := by
    cases s with
    | nil => simp
    | cons c s =>
        have := place_lt_place hs List.nil_suffix (Nat.succ_pos _)
        rw [place_nil] at this
        simpa using this
  rw [hend]
  exact Gives.pure hs _

/-- What a part of the scanner says that takes something, or stays where it stands. -/
def taken (s : List Char) : Option (List Char) → Bool × List Char
  | some r => (true, r)
  | none => (false, s)

theorem snd_taken (s : List Char) (next : Option (List Char)) : (taken s next).2 = next.getD s := by
  cases next <;> rfl

theorem Gives.found {m : Scan Bool} {a b : Scan β} {told : Except Failure (β × List Char)}
    (hm : Gives source m s (.ok (taken s (some r))))
    (ha : r <:+ source → Gives source a r told) :
    Gives source (m >>= fun found => if found = true then a else b) s told := hm.bind ha

theorem Gives.absent {m : Scan Bool} {a b : Scan β} {told : Except Failure (β × List Char)}
    (hm : Gives source m s (.ok (taken s none)))
    (hb : s <:+ source → Gives source b s told) :
    Gives source (m >>= fun found => if found = true then a else b) s told := hm.bind hb

theorem Gives.branch {m : Scan Bool} {next : Option (List Char)} {a b : Scan β}
    {told : Except Failure (β × List Char)} (hm : Gives source m s (.ok (taken s next)))
    (hsome : ∀ r, next = some r → r <:+ source → Gives source a r told)
    (hnone : next = none → s <:+ source → Gives source b s told) :
    Gives source (m >>= fun found => if found = true then a else b) s told := by
  cases next with
  | some r => exact hm.found (hsome r rfl)
  | none => exact hm.absent (hnone rfl)

theorem gives_eat (hs : s <:+ source) (mark : List Char) :
    Gives source (eat mark) s (.ok (taken s (stripLead? mark s))) := by
  refine (gives_rest hs).bind fun hs => ?_
  cases h : stripLead? mark s with
  | none => exact Gives.pure hs false
  | some r =>
      obtain rfl := stripLead?_eq_some_iff.mp h
      exact (gives_advance hs).bind fun hr => Gives.pure hr true

theorem snd_taken_singleton (c : Char) (s : List Char) :
    (taken s (stripLead? [c] s)).2 = if s.head? = some c then s.tail else s := by
  cases s with
  | nil => rfl
  | cons d s =>
      by_cases hc : c = d
      · subst hc
        rw [stripLead?, if_pos rfl, stripLead?]
        exact (if_pos rfl).symm
      · rw [stripLead?, if_neg hc]
        exact (if_neg fun he => hc (Option.some.inj he).symm).symm

theorem gives_eatWord (hs : s <:+ source) (w : List Char) :
    Gives source (eatWord w) s (.ok (taken s ((Token.word w).take? s))) := by
  refine (gives_rest hs).bind fun hs => ?_
  simp only [Token.take?]
  cases h : stripLead? w s with
  | none => exact Gives.pure hs false
  | some r =>
      obtain rfl := stripLead?_eq_some_iff.mp h
      simp only [Option.filter_some]
      cases r.head?.any isWordChar with
      | true => exact Gives.pure hs false
      | false => exact (gives_advance hs).bind fun hr => Gives.pure hr true

theorem gives_eatToken (hs : s <:+ source) (text : List Char) :
    Gives source (eatToken text) s (.ok (taken s ((Token.ofText text).take? s))) := by
  unfold eatToken Token.ofText
  split
  · exact gives_eatWord hs text
  · exact gives_eat hs text

/-! ## Trivia -/

theorem find?_eq_some {mark s : List Char} (hmark : mark ≠ []) {n : Nat}
    (h : find? mark s = some n) :
    ∃ before behind, s = before ++ (mark ++ behind) ∧ n = bytes before ∧ ¬ mark <:+: before := by
  have hnil : ¬ mark <:+: [] := fun hi => hmark (List.infix_nil.mp hi)
  fun_induction find? mark s generalizing n with
  | case1 he => exact absurd he hmark
  | case2 => cases h
  | case3 c s hstrip =>
      cases h
      obtain ⟨behind, hbehind⟩ := Option.isSome_iff_exists.mp hstrip
      exact ⟨[], behind, (stripLead?_eq_some_iff.mp hbehind :), rfl, hnil⟩
  | case4 c s hstrip ih =>
      obtain ⟨k, hk, rfl⟩ := Option.map_eq_some_iff.mp h
      obtain ⟨before, behind, rfl, rfl, hfree⟩ := ih hk
      refine ⟨c :: before, behind, rfl, (bytes_cons c before).symm, not_infix_cons ?_ hfree⟩
      rintro ⟨t, ht⟩
      refine hstrip (Option.isSome_iff_exists.mpr ⟨t ++ (mark ++ behind), ?_⟩)
      rw [stripLead?_eq_some_iff, ← List.cons_append, ← ht, List.append_assoc]

theorem find?_eq_none {mark s : List Char} (h : find? mark s = none) : ¬ mark <:+: s := by
  fun_induction find? mark s with
  | case1 => cases h
  | case2 hne => exact fun hi => hne (List.infix_nil.mp hi)
  | case3 => cases h
  | case4 c s hstrip ih =>
      refine not_infix_cons ?_ (ih (Option.map_eq_none_iff.mp h))
      rintro ⟨t, ht⟩
      exact hstrip (Option.isSome_iff_exists.mpr ⟨t, stripLead?_eq_some_iff.mpr ht.symm⟩)

theorem trivia_dropWhile_isBlank (s : List Char) : Trivia s (s.dropWhile isBlank) := by
  induction s with
  | nil => exact .none []
  | cons c s ih =>
      cases hc : isBlank c with
      | true =>
          rw [List.dropWhile_cons_of_pos hc]
          exact .blank hc ih
      | false =>
          rw [List.dropWhile_cons_of_neg (by simp [hc])]
          exact .none _

theorem gives_skipBlanks (hs : s <:+ source) :
    Gives source skipBlanks s (.ok (s.dropWhile isBlank, s.dropWhile isBlank)) := by
  refine (gives_rest hs).bind fun hs => ?_
  obtain ⟨blanks, hblanks⟩ := List.dropWhile_suffix (l := s) isBlank
  have hbytes : bytes s = bytes blanks + bytes (s.dropWhile isBlank) := by
    rw [← bytes_append, hblanks]
  have hadvance := gives_advance (hblanks.symm ▸ hs)
  rw [hblanks] at hadvance
  refine (gives_minus hs (by omega)).bind fun _ => ?_
  rw [hbytes, Nat.add_sub_cancel]
  exact hadvance.bind fun ht => Gives.pure ht _

theorem gives_skipLine {body : List Char} (hs : '/' :: '/' :: body <:+ source) :
    ∃ r, Gives source (skipLine ('/' :: '/' :: body)) ('/' :: '/' :: body) (.ok ((), r)) ∧
      Trivia ('/' :: '/' :: body) r ∧ r.length < ('/' :: '/' :: body).length := by
  unfold skipLine
  cases h : find? ['\n'] ('/' :: '/' :: body) with
  | some n =>
      obtain ⟨before, behind, hbefore, rfl, hfree⟩ := find?_eq_some (List.cons_ne_nil _ _) h
      -- the line feed stands behind both slashes
      obtain ⟨line, rfl, rfl⟩ : ∃ line, before = '/' :: '/' :: line ∧
          body = line ++ '\n' :: behind := by
        rcases before with _ | ⟨c, _ | ⟨d, line⟩⟩
        · cases hbefore
        · cases hbefore
        · cases hbefore
          exact ⟨line, rfl, rfl⟩
      have hline : '\n' ∉ line := fun hm => hfree <| (List.singleton_infix_iff _ _).mpr <|
        List.mem_cons_of_mem _ (List.mem_cons_of_mem _ hm)
      refine ⟨'\n' :: behind, ?_, .line hline (.none _), ?_⟩
      · exact gives_advance (t := '/' :: '/' :: line) hs
      · simp
        omega
  | none =>
      have hline : '\n' ∉ body := fun hm => find?_eq_none h <| (List.singleton_infix_iff _ _).mpr <|
        List.mem_cons_of_mem _ (List.mem_cons_of_mem _ hm)
      refine ⟨[], ?_, .lastLine hline, Nat.succ_pos _⟩
      have hnil : '/' :: '/' :: body ++ [] <:+ source := by rwa [List.append_nil]
      have hadvance := gives_advance hnil
      rwa [List.append_nil] at hadvance

theorem gives_skipBlock {body : List Char} (hs : '/' :: '*' :: body <:+ source) :
    ∃ r, Gives source (skipBlock body) ('/' :: '*' :: body) (.ok ((), r)) ∧
      Trivia ('/' :: '*' :: body) r ∧ r.length < ('/' :: '*' :: body).length := by
  unfold skipBlock
  cases h : find? ['*', '/'] body with
  | some n =>
      obtain ⟨before, behind, rfl, rfl, hfree⟩ := find?_eq_some (List.cons_ne_nil _ _) h
      have hsplit : '/' :: '*' :: (before ++ (['*', '/'] ++ behind)) =
          '/' :: '*' :: (before ++ ['*', '/']) ++ behind := by simp
      have hsize : bytes before + 4 = bytes ('/' :: '*' :: (before ++ ['*', '/'])) := by
        have : bytes ['*', '/'] = 2 := rfl
        rw [bytes_cons, bytes_cons, bytes_append, this]
        show bytes before + 4 = 1 + (1 + (bytes before + 2))
        omega
      refine ⟨behind, ?_, .block hfree (.none _), ?_⟩
      · rw [hsplit] at hs ⊢
        show Gives source (advance (bytes before + 4)) _ _
        rw [hsize]
        exact gives_advance hs
      · rw [hsplit, List.length_append]
        exact Nat.lt_add_of_pos_left (Nat.succ_pos _)
  | none =>
      refine ⟨[], ?_, .openBlock (find?_eq_none h), Nat.succ_pos _⟩
      refine (gives_source hs).bind fun hs => ?_
      rw [← place_nil]
      exact gives_moveTo hs List.nil_suffix

/-- Neither a blank stands here nor the opening of a comment. -/
theorem afterTrivia_of_marks {t : List Char} (hblank : ∀ c t', t = c :: t' → isBlank c = false)
    (hline : stripLead? ['/', '/'] t = none) (hblock : stripLead? ['/', '*'] t = none) :
    afterTrivia t = t := by
  cases t with
  | nil => rfl
  | cons c t =>
      refine afterTrivia_of_not_starts (hblank c t rfl) ?_
      unfold startsComment
      split
      · rename_i r he
        exact absurd he (ne_append_of_stripLead? hline r)
      · rename_i r he
        exact absurd he (ne_append_of_stripLead? hblock r)
      · rfl

/-- A lap of skipping goes a way through trivia, or stands where no trivia begins. -/
theorem lap_trivia (x : Unit) (s : List Char) (hs : s <:+ source) :
    Lap source triviaLap (fun _ s told => told = .ok ((), afterTrivia s)) x s := by
  have hblanks := trivia_dropWhile_isBlank s
  have hlap := gives_skipBlanks hs
  have hlength := (List.dropWhile_suffix (l := s) isBlank).length_le
  have hhead : ∀ c t, s.dropWhile isBlank = c :: t → isBlank c = false := fun c t ht => by
    have := List.head?_dropWhile_not isBlank s
    rw [ht] at this
    exact this
  generalize s.dropWhile isBlank = t at hblanks hlap hlength hhead
  -- a comment that is skipped leads to where skipping leads from here
  have hgoes {r : List Char} (hgives : Gives source (triviaLap x) s (.ok (.inl (), r)))
      (hr : Trivia t r) (hlt : r.length < t.length) :
      Lap source triviaLap (fun _ s told => told = .ok ((), afterTrivia s)) x s := by
    refine .goesOn hgives (hlt.trans_le hlength) ?_
    rintro _ rfl
    rw [(hblanks.trans hr).afterTrivia_eq]
  cases hline : stripLead? ['/', '/'] t with
  | some body =>
      obtain rfl := stripLead?_eq_some_iff.mp hline
      obtain ⟨r, hskip, hr, hlt⟩ := gives_skipLine hlap.1
      refine hgoes (hlap.bind fun _ => ?_) hr hlt
      exact hskip.bind fun hr => Gives.pure hr _
  | none =>
      cases hblock : stripLead? ['/', '*'] t with
      | some body =>
          obtain rfl := stripLead?_eq_some_iff.mp hblock
          obtain ⟨r, hskip, hr, hlt⟩ := gives_skipBlock hlap.1
          refine hgoes (hlap.bind fun _ => ?_) hr hlt
          exact hskip.bind fun hr => Gives.pure hr _
      | none =>
          have hsolid : afterTrivia t = t := afterTrivia_of_marks hhead hline hblock
          refine .ends (y := ()) (r := t) (hlap.bind fun ht => ?_) ?_
          · rw [hline, hblock]
            exact Gives.pure ht _
          · rw [hblanks.afterTrivia_eq, hsolid]

theorem gives_skipTrivia (hs : s <:+ source) :
    Gives source skipTrivia s (.ok ((), afterTrivia s)) :=
  gives_loop lap_trivia () hs

/-! ## Sequences -/

theorem gives_eatFrom (hs : s <:+ source) (hu : u <:+ source) (texts : List (List Char)) :
    Gives source (eatFrom (place source s) texts) u
      (.ok (taken s (Token.takeAll? (texts.map Token.ofText) u))) := by
  induction texts generalizing u with
  | nil => exact Gives.pure hu true
  | cons text texts ih =>
      rw [List.map_cons]
      refine (gives_eatToken hu text).branch (fun r hr hrs => ?_) fun hnone hu => ?_
      · cases texts with
        | nil =>
            rw [List.map_nil, Token.takeAll?, hr]
            exact Gives.pure hrs true
        | cons text' texts =>
            rw [List.map_cons, Token.takeAll?_cons_cons, hr]
            exact (gives_skipTrivia hrs).bind fun hrs => ih hrs
      · rw [Token.takeAll?_of_head_none hnone]
        exact (gives_moveTo hu hs).bind fun hs => Gives.pure hs false

theorem gives_eatAll (hs : s <:+ source) (texts : List (List Char)) :
    Gives source (eatAll texts) s (.ok (taken s (Token.takeAll? (texts.map Token.ofText) s))) :=
  (gives_offset hs).bind fun hs => gives_eatFrom hs hs texts

/-- The tokens of a page are written by their characters. -/
theorem gives_eatTokens (hs : s <:+ source) (ts : List Token)
    (hts : (ts.map Token.text).map Token.ofText = ts) :
    Gives source (eatAll (ts.map Token.text)) s (.ok (taken s (Token.takeAll? ts s))) := by
  have heat := gives_eatAll hs (ts.map Token.text)
  rwa [hts] at heat

theorem gives_expect (hs : s <:+ source) (m : Char) :
    Gives source (expect m) s ((readMark m s).map fun r => ((), r)) := by
  refine (gives_skipTrivia hs).bind fun hu => ?_
  refine (gives_eat hu [m]).branch (fun r hr hrs => ?_) fun hnone hu => ?_
  · have hmark : readMark m s = .ok r := by
      have hs : afterTrivia s = m :: r := stripLead?_eq_some_iff.mp hr
      unfold readMark
      rw [hs]
      exact if_pos rfl
    rw [hmark]
    exact Gives.pure hrs ()
  · have hmark : readMark m s = .error ⟨.missingMark m (afterTrivia s).head?, afterTrivia s⟩ := by
      unfold readMark
      cases hs : afterTrivia s with
      | nil => rfl
      | cons c r =>
          refine if_neg ?_
          rintro rfl
          exact ne_append_of_stripLead? hnone r hs
    rw [hmark]
    exact (gives_peek hu).bind fun hu => gives_fail hu _

theorem gives_expect_then (hs : s <:+ source) (m : Char) {k : Scan β}
    {next : List Char → Except Failure (β × List Char)}
    (hk : ∀ r, r <:+ source → Gives source k r (next r)) :
    Gives source (expect m >>= fun _ => k) s (readMark m s >>= next) := by
  have hexpect := gives_expect hs m
  cases hread : readMark m s with
  | error f =>
      rw [hread] at hexpect
      exact hexpect.bind_error _
  | ok r =>
      rw [hread] at hexpect
      exact hexpect.bind (hk r)

/-! ## Unknown statements -/

theorem lap_quoted (quote : Char) (x : Unit) (s : List Char) (hs : s <:+ source) :
    Lap source (quotedLap quote) (fun _ s told => told = .ok ((), afterQuoted quote s)) x s := by
  cases s with
  | nil => exact .ends (y := ()) (gives_bump_nil.bind fun hs => Gives.pure hs _) rfl
  | cons c s =>
      have hbump := gives_bump hs
      by_cases hback : c = '\\'
      · subst hback
        cases s with
        | nil =>
            refine .goesOn (z := ()) (r := []) (hbump.bind fun _ => ?_) (Nat.lt_succ_self _) ?_
            · exact gives_bump_nil.bind fun hs => Gives.pure hs _
            · rintro _ rfl
              rfl
        | cons d s =>
            refine .goesOn (z := ()) (r := s) (hbump.bind fun hd => ?_) ?_ ?_
            · exact (gives_bump hd).bind fun hs => Gives.pure hs _
            · exact Nat.lt_add_of_pos_right (k := 2) (Nat.succ_pos 1)
            · rintro _ rfl
              rw [afterQuoted]
      · have hquoted : afterQuoted quote (c :: s) =
            if c = quote ∨ (c = '\n' ∧ quote ≠ '\x60') then s else afterQuoted quote s := by
          rw [afterQuoted]
          · exact fun he => absurd he hback
          · exact fun _ _ he => absurd he hback
        by_cases hends : c = quote ∨ (c = '\n' ∧ quote ≠ '\x60')
        · refine .ends (y := ()) (r := s) (hbump.bind fun hs => ?_) ?_
          · simp only [if_neg hback]
            split
            · exact Gives.pure hs _
            · rename_i hfeed
              rw [if_pos (hends.resolve_right hfeed)]
              exact Gives.pure hs _
          · rw [hquoted, if_pos hends]
        · rw [not_or] at hends
          refine .goesOn (z := ()) (r := s) (hbump.bind fun hs => ?_) (Nat.lt_succ_self _) ?_
          · simp only [if_neg hback, if_neg hends.1, if_neg hends.2]
            exact Gives.pure hs _
          · rintro _ rfl
            rw [hquoted, if_neg (not_or.mpr hends)]

theorem gives_skipQuoted {c : Char} (hs : c :: s <:+ source) :
    Gives source (skipQuoted c) (c :: s) (.ok ((), afterQuoted c s)) :=
  (gives_bump hs).bind fun hs => gives_loop (lap_quoted c) () hs

/-- A lap of skipping a statement that goes on does so where skipping goes on. -/
theorem Lap.skipsOn {depth depth' : Nat}
    (h : Gives source (statementLap depth) s (.ok (.inl depth', r)))
    (hlt : r.length < s.length) (hskip : afterStatementAt depth s = afterStatementAt depth' r) :
    Lap source statementLap (fun depth s told => told = .ok ((), afterStatementAt depth s))
      depth s := by
  refine .goesOn h hlt ?_
  rintro _ rfl
  rw [hskip]

theorem lap_closeBracket {c : Char} (hc : isClosing c = true) (depth : Nat)
    (hs : c :: s <:+ source)
    (hlap : ∀ {told}, Gives source (closeBracket depth c) (c :: s) told →
      Gives source (statementLap depth) (c :: s) told) :
    Lap source statementLap (fun depth s told => told = .ok ((), afterStatementAt depth s))
      depth (c :: s) := by
  have hskip := afterStatementAt_bracket depth hc s
  cases depth with
  | zero => exact .ends (hlap (Gives.pure hs _)) (by rw [hskip]; rfl)
  | succ depth =>
      have hlower : Gives source (lower (depth + 1)) (c :: s) (.ok (depth, c :: s)) :=
        Gives.pure hs depth
      rw [if_neg (Nat.succ_ne_zero depth), Nat.add_sub_cancel] at hskip
      by_cases hends : depth = 0 ∧ c = '}'
      · rw [if_pos ⟨congrArg _ hends.1, hends.2⟩] at hskip
        refine .ends (y := ()) (r := (taken s (stripLead? [';'] s)).2) (hlap ?_) ?_
        · refine hlower.bind fun hs => (gives_bump hs).bind fun hs => ?_
          rw [if_pos hends]
          exact (gives_eat hs [';']).bind fun hr => Gives.pure hr _
        · rw [hskip, snd_taken_singleton]
      · rw [if_neg (by simpa using hends)] at hskip
        refine .skipsOn (hlap ?_) (Nat.lt_succ_self _) hskip
        refine hlower.bind fun hs => (gives_bump hs).bind fun hs => ?_
        rw [if_neg hends]
        exact Gives.pure hs _

theorem lap_statement (depth : Nat) (s : List Char) (hs : s <:+ source) :
    Lap source statementLap (fun depth s told => told = .ok ((), afterStatementAt depth s))
      depth s := by
  have hrest := gives_rest hs
  cases s with
  | nil =>
      refine .ends (y := ()) (hrest.bind fun hs => Gives.pure hs _) ?_
      rw [afterStatementAt]
  | cons c s =>
      have hstep {told} (h : Gives source (stepOver depth c s) (c :: s) told) :
          Gives source (statementLap depth) (c :: s) told := hrest.bind fun _ => h
      have hbump := gives_bump hs
      unfold stepOver at hstep
      split at hstep
      · rename_i hcomment
        refine .skipsOn (hstep ?_) (length_afterTrivia_lt hcomment)
          (afterStatementAt_comment depth hcomment)
        exact (gives_skipTrivia hs).bind fun hr => Gives.pure hr _
      · rename_i hcomment
        split at hstep
        · rename_i hquote
          refine .skipsOn (hstep ?_) ?_ (afterStatementAt_quote depth hquote s)
          · exact (gives_skipQuoted hs).bind fun hr => Gives.pure hr _
          · exact Nat.lt_succ_of_le (afterQuoted_suffix c s).length_le
        · rename_i hquote
          split at hstep
          · rename_i hopen
            refine .skipsOn (hstep ?_) (Nat.lt_succ_self _) (afterStatementAt_opening depth hopen s)
            exact hbump.bind fun hr => Gives.pure hr _
          · rename_i hopen
            split at hstep
            · rename_i hclose
              exact lap_closeBracket hclose depth hs hstep
            · rename_i hclose
              have hplain : isPlain c = true := by
                simp [isPlain, hquote, hopen, hclose]
              by_cases hends : c = ';' ∧ depth = 0
              · refine .ends (y := ()) (r := s) (hstep ?_) ?_
                · refine hbump.bind fun hs => ?_
                  rw [if_pos hends]
                  exact Gives.pure hs _
                · rw [hends.1, hends.2, afterStatementAt_semicolon]
              · refine .skipsOn (hstep ?_) (Nat.lt_succ_self _)
                  (afterStatementAt_plain hplain (eq_false_of_ne_true hcomment) hends)
                refine hbump.bind fun hs => ?_
                rw [if_neg hends]
                exact Gives.pure hs _

theorem gives_skipStatement (hs : s <:+ source) :
    Gives source skipStatement s (.ok ((), afterStatementAt 0 s)) :=
  gives_loop lap_statement 0 hs

end Crossref.Script.Scan
