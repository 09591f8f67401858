import Sone.Formula.Parse

/-!
# The grammar of formulas

`Derives` is the grammar: six levels, each an operand of the next or itself, an operator and an
operand of the next, so that a chain of operators leans to the left; and primaries, inside of
which one nesting fewer is left. The parser reads exactly what derives, and the tree it derives:
`soundUpTo` by induction on the fuel, and `Derives.readAs` by induction on the derivation.

The second needs to know where a parser stops. An expression at the left of an operator is not
read by itself: the loop that reads it goes on with it (`Continues`).
-/

namespace Sone

open List Option

variable {js : Js}

mutual

/-- **The grammar**, `d` nestings deep at most. -/
inductive Derives (js : Js) : Precedence → ℕ → List Token → Expr → Prop where
  | operand {l d ts e} (level : l ≠ .primary) (h : Derives js l.next d ts e) : Derives js l d ts e
  | binary {l d ts us op left right} (t : Token) (ht : l.operator js t.kind = some op)
      (hleft : Derives js l d ts left) (hright : Derives js l.next d us right) :
      Derives js l d (ts ++ t :: us) (.binary op left right)
  | number {d value} (t : Token) (ht : t.kind = .number value) :
      Derives js .primary (d + 1) [t] (.number value)
  | text {d value} (t : Token) (ht : t.kind = .string value) :
      Derives js .primary (d + 1) [t] (.text value)
  | field {d value} (t : Token) (ht : t.kind = .field value) :
      Derives js .primary (d + 1) [t] (.field value)
  | boolean {d word} (t : Token) (ht : t.kind = .name word)
      (h : js.lowerCase word = "true" ∨ js.lowerCase word = "false") :
      Derives js .primary (d + 1) [t] (.boolean (js.lowerCase word = "true"))
  | column {d word} (t : Token) (ht : t.kind = .name word) (htrue : js.lowerCase word ≠ "true")
      (hfalse : js.lowerCase word ≠ "false") (hnot : js.lowerCase word ≠ "not") :
      Derives js .primary (d + 1) [t] (.field word)
  | not {d word ts e} (t : Token) (ht : t.kind = .name word) (hword : js.lowerCase word = "not")
      (h : Derives js .primary d ts e) : Derives js .primary (d + 1) (t :: ts) (.unary .not e)
  | neg {d ts e} (t : Token) (ht : t.kind = .op "-") (h : Derives js .primary d ts e) :
      Derives js .primary (d + 1) (t :: ts) (.unary .neg e)
  | brackets {d ts e} (t u : Token) (ht : t.kind = .op "(") (hu : u.kind = .op ")")
      (h : Derives js .or d ts e) : Derives js .primary (d + 1) (t :: (ts ++ [u])) e
  | call {d word ts args} (t o u : Token) (ht : t.kind = .name word)
      (htrue : js.lowerCase word ≠ "true") (hfalse : js.lowerCase word ≠ "false")
      (hnot : js.lowerCase word ≠ "not") (ho : o.kind = .op "(") (hu : u.kind = .op ")")
      (h : DerivesAll js d ts args) :
      Derives js .primary (d + 1) (t :: o :: (ts ++ [u])) (.call (js.lowerCase word) args)

/-- Arguments, with commas between them. -/
inductive DerivesAll (js : Js) : ℕ → List Token → List Expr → Prop where
  | none {d} : DerivesAll js d [] []
  | some {d ts e es} (h : DerivesSome js d ts (e :: es)) : DerivesAll js d ts (e :: es)

inductive DerivesSome (js : Js) : ℕ → List Token → List Expr → Prop where
  | one {d ts e} (h : Derives js .or d ts e) : DerivesSome js d ts [e]
  | more {d ts us e es} (t : Token) (ht : t.kind = .op ",") (h : Derives js .or d ts e)
      (hall : DerivesSome js d us es) : DerivesSome js d (ts ++ t :: us) (e :: es)

end

/-! ### What a parser does with a primary -/

namespace FormulaParser

variable {s s' : FormulaParser}

theorem rest_eq_of_peek (h : s.peek.kind ≠ .finish) : s.rest = s.peek :: s.advance.rest := by
  rw [peek, advance] at *
  cases hrest : s.rest with
  | nil => simp [hrest] at h
  | cons t rest => rfl

theorem isOp_iff {value : String} : s.isOp value = true ↔ s.peek.kind = .op value := by
  rw [isOp, decide_eq_true_eq]

theorem fail_failure_ne_none {code : ParseErrorCode} {place : ℕ} {found : Option String} :
    (s.fail code place found).2.failure ≠ none := by
  cases h : s.failure <;> simp [fail, h]

theorem close_eq (h : (s.close place e).2.failure = none) :
    s.isOp ")" = true ∧ s.close place e = (e, s.advance) := by
  rw [close] at *
  split at h
  · rename_i hop
    rw [if_pos hop]
    exact ⟨hop, rfl⟩
  · exact absurd h fail_failure_ne_none

end FormulaParser

/-- **A primary that is read**: what it begins with, and what is read inside of it. -/
inductive PrimaryStep (js : Js) (fuel : ℕ) (s : FormulaParser) : Expr → FormulaParser → Prop where
  | number {value} (h : s.peek.kind = .number value) :
      PrimaryStep js fuel s (.number value) s.advance
  | text {value} (h : s.peek.kind = .string value) : PrimaryStep js fuel s (.text value) s.advance
  | field {value} (h : s.peek.kind = .field value) : PrimaryStep js fuel s (.field value) s.advance
  | boolean {word} (h : s.peek.kind = .name word)
      (hword : js.lowerCase word = "true" ∨ js.lowerCase word = "false") :
      PrimaryStep js fuel s (.boolean (js.lowerCase word = "true")) s.advance
  | column {word} (h : s.peek.kind = .name word) (htrue : js.lowerCase word ≠ "true")
      (hfalse : js.lowerCase word ≠ "false") (hnot : js.lowerCase word ≠ "not")
      (hopen : s.advance.isOp "(" = false) : PrimaryStep js fuel s (.field word) s.advance
  | not {word e s₁} (h : s.peek.kind = .name word) (hword : js.lowerCase word = "not")
      (hread : parse js fuel .primary s.enter.advance = some (e, s₁)) :
      PrimaryStep js fuel s (.unary .not e) s₁.leave
  | neg {e s₁} (h : s.peek.kind = .op "-")
      (hread : parse js fuel .primary s.enter.advance = some (e, s₁)) :
      PrimaryStep js fuel s (.unary .neg e) s₁.leave
  | brackets {e s₁} (h : s.peek.kind = .op "(")
      (hread : parse js fuel .or s.enter.advance = some (e, s₁)) (hclose : s₁.isOp ")" = true) :
      PrimaryStep js fuel s e s₁.advance.leave
  | callNone {word} (h : s.peek.kind = .name word) (htrue : js.lowerCase word ≠ "true")
      (hfalse : js.lowerCase word ≠ "false") (hnot : js.lowerCase word ≠ "not")
      (hopen : s.advance.isOp "(" = true) (hclose : s.advance.advance.isOp ")" = true) :
      PrimaryStep js fuel s (.call (js.lowerCase word) []) s.advance.advance.advance
  | call {word args s₁} (h : s.peek.kind = .name word) (htrue : js.lowerCase word ≠ "true")
      (hfalse : js.lowerCase word ≠ "false") (hnot : js.lowerCase word ≠ "not")
      (hopen : s.advance.isOp "(" = true) (hsome : s.advance.advance.isOp ")" = false)
      (hread : parseArguments js fuel [] s.enter.advance.advance = some (args, s₁))
      (hclose : s₁.isOp ")" = true) :
      PrimaryStep js fuel s (.call (js.lowerCase word) args) s₁.advance.leave

/-- **What a primary is** where nothing failed. -/
theorem primaryStep_of_parse {fuel : ℕ} {s s' : FormulaParser} {e : Expr}
    (h : parse js (fuel + 1) .primary s = some (e, s')) (hok : s'.failure = none) :
    s.failure = none ∧ s.depth < maxFormulaDepth ∧ PrimaryStep js fuel s e s' := by
  rw [parse] at h
  split at h
  · rename_i hfailure
    obtain ⟨-, rfl⟩ := Prod.mk.inj (some.inj h)
    simp [hok] at hfailure
  rename_i hfailure
  split at h
  · obtain ⟨-, rfl⟩ := Prod.mk.inj (some.inj h)
    exact absurd hok FormulaParser.fail_failure_ne_none
  rename_i hdepth
  refine ⟨by simpa using hfailure, Nat.lt_of_succ_le (Nat.not_lt.mp hdepth), ?_⟩
  obtain ⟨⟨e₁, s₁⟩, hread, heq⟩ := map_eq_some_iff.mp h
  obtain ⟨rfl, rfl⟩ := Prod.mk.inj heq
  have hpeek : s.enter.peek = s.peek := rfl
  rw [hpeek] at hread
  split at hread
  · obtain ⟨rfl, rfl⟩ := Prod.mk.inj (some.inj hread)
    exact .number ‹_›
  · obtain ⟨rfl, rfl⟩ := Prod.mk.inj (some.inj hread)
    exact .text ‹_›
  · obtain ⟨rfl, rfl⟩ := Prod.mk.inj (some.inj hread)
    exact .field ‹_›
  · rename_i word hword
    split at hread
    · obtain ⟨rfl, rfl⟩ := Prod.mk.inj (some.inj hread)
      exact .boolean hword ‹_›
    rename_i hboolean
    obtain ⟨htrue, hfalse⟩ := not_or.mp hboolean
    split at hread
    · obtain ⟨⟨e₂, s₂⟩, hinner, heq⟩ := map_eq_some_iff.mp hread
      obtain ⟨rfl, rfl⟩ := Prod.mk.inj heq
      exact .not hword ‹_› hinner
    rename_i hnot
    split at hread
    · rename_i hopen
      split at hread
      · rename_i hclose
        rw [FormulaParser.close, if_pos hclose] at hread
        obtain ⟨rfl, rfl⟩ := Prod.mk.inj (some.inj hread)
        exact .callNone hword htrue hfalse hnot hopen hclose
      · rename_i hsome
        obtain ⟨⟨args, s₂⟩, hinner, heq⟩ := map_eq_some_iff.mp hread
        have hclosed := @FormulaParser.close_eq _ _ _ (by rw [heq]; exact hok)
        obtain ⟨hclose, hclosed⟩ := hclosed
        rw [hclosed] at heq
        obtain ⟨rfl, rfl⟩ := Prod.mk.inj heq
        exact .call hword htrue hfalse hnot hopen ((Bool.not_eq_true _).mp hsome) hinner hclose
    · rename_i hopen
      obtain ⟨rfl, rfl⟩ := Prod.mk.inj (some.inj hread)
      exact .column hword htrue hfalse hnot ((Bool.not_eq_true _).mp hopen)
  · rename_i value hvalue
    split at hread
    · rename_i hbracket
      subst hbracket
      obtain ⟨⟨e₂, s₂⟩, hinner, heq⟩ := map_eq_some_iff.mp hread
      obtain ⟨hclose, hclosed⟩ := @FormulaParser.close_eq _ _ _ (by rw [heq]; exact hok)
      rw [hclosed] at heq
      obtain ⟨rfl, rfl⟩ := Prod.mk.inj heq
      exact .brackets hvalue hinner hclose
    split at hread
    · rename_i hminus
      subst hminus
      obtain ⟨⟨e₂, s₂⟩, hinner, heq⟩ := map_eq_some_iff.mp hread
      obtain ⟨rfl, rfl⟩ := Prod.mk.inj heq
      exact .neg hvalue hinner
    · obtain ⟨-, rfl⟩ := Prod.mk.inj (some.inj hread)
      exact absurd hok FormulaParser.fail_failure_ne_none
  · obtain ⟨-, rfl⟩ := Prod.mk.inj (some.inj hread)
    exact absurd hok FormulaParser.fail_failure_ne_none

theorem FormulaParser.close_of_isOp {s : FormulaParser} {place : ℕ} {e : Expr}
    (h : s.isOp ")" = true) : s.close place e = (e, s.advance) := by rw [close, if_pos h]

/-- **And so it is read.** -/
theorem parse_of_primaryStep {fuel : ℕ} {s s' : FormulaParser} {e : Expr}
    (hfailure : s.failure = none) (hdepth : s.depth < maxFormulaDepth)
    (h : PrimaryStep js fuel s e s') : parse js (fuel + 1) .primary s = some (e, s') := by
  have hdeep : ¬maxFormulaDepth < s.enter.depth := Nat.not_lt.mpr hdepth
  rw [parse, if_neg (by simp [hfailure]), if_neg hdeep]
  simp only
  have hpeek : s.enter.peek = s.peek := rfl
  rw [hpeek]
  have hopens : s.enter.advance.isOp "(" = s.advance.isOp "(" := rfl
  have hcloses : s.enter.advance.advance.isOp ")" = s.advance.advance.isOp ")" := rfl
  rw [hopens, hcloses]
  cases h with
  | number hk => rw [hk]; rfl
  | text hk => rw [hk]; rfl
  | field hk => rw [hk]; rfl
  | boolean hk hword =>
    rw [hk]
    simp only
    rw [if_pos hword]
    rfl
  | column hk htrue hfalse hnot hopen =>
    rw [hk]
    simp only
    rw [if_neg (not_or.mpr ⟨htrue, hfalse⟩), if_neg hnot, if_neg (by simp [hopen])]
    rfl
  | not hk hword hread =>
    rw [hk]
    simp only
    rw [if_neg (by simp [hword]), if_pos hword, hread]
    rfl
  | neg hk hread =>
    rw [hk]
    simp only
    rw [if_neg (by decide), if_pos trivial, hread]
    rfl
  | brackets hk hread hclose =>
    rw [hk]
    simp only
    rw [if_pos trivial, hread, map_some, map_some, FormulaParser.close_of_isOp hclose]
  | callNone hk htrue hfalse hnot hopen hclose =>
    rw [hk]
    simp only
    rw [if_neg (not_or.mpr ⟨htrue, hfalse⟩), if_neg hnot, if_pos hopen, if_pos hclose,
      FormulaParser.close_of_isOp (hcloses.trans hclose)]
    rfl
  | call hk htrue hfalse hnot hopen hsome hread hclose =>
    rw [hk]
    simp only
    rw [if_neg (not_or.mpr ⟨htrue, hfalse⟩), if_neg hnot, if_pos hopen, if_neg (by simp [hsome]),
      hread, map_some, map_some, FormulaParser.close_of_isOp hclose]

/-! ### What is read derives -/

def FormulaParser.left (s : FormulaParser) : ℕ := maxFormulaDepth - s.depth

theorem parse_operand {fuel : ℕ} {l : Precedence} (h : l ≠ .primary) (s : FormulaParser) :
    parse js (fuel + 1) l s =
      (parse js fuel l.next s).bind fun r => parseBinary js fuel l r.1 r.2 := by
  cases l
  · rfl
  · rfl
  · rfl
  · rfl
  · rfl
  · exact absurd rfl h

theorem operator_finish (l : Precedence) : l.operator js .finish = none := by
  cases l <;> rfl

theorem operator_primary (kind : TokenKind) : Precedence.primary.operator js kind = none := by
  cases kind <;> rfl

/-- `s'` is `s` after some of its tokens. -/
def FormulaParser.After (s' s : FormulaParser) : Prop := s' = { s with rest := s'.rest }

theorem FormulaParser.After.failure {s s' : FormulaParser} (h : s'.After s) :
    s.failure = s'.failure := by
  rw [h]

theorem FormulaParser.After.left {s s' : FormulaParser} (h : s'.After s) : s'.left = s.left := by
  rw [h]
  rfl

theorem FormulaParser.After.trans {s s' s'' : FormulaParser} (h' : s''.After s')
    (h : s'.After s) : s''.After s := by
  rw [FormulaParser.After] at *
  rw [h', h]

/-- **Up to some fuel**, what a parser reads without a failure derives; a loop and the arguments
of a call read what goes on from what there was. -/
structure SoundUpTo (js : Js) (fuel : ℕ) : Prop where
  parse : ∀ {l : Precedence} {s s' : FormulaParser} {e : Expr},
    parse js fuel l s = some (e, s') → s'.failure = none →
      s'.After s ∧ ∃ ts, s.rest = ts ++ s'.rest ∧ Derives js l s.left ts e
  binary : ∀ {l : Precedence} {left : Expr} {s s' : FormulaParser} {e : Expr},
    parseBinary js fuel l left s = some (e, s') → s'.failure = none →
      s'.After s ∧ ∃ ts, s.rest = ts ++ s'.rest ∧
        ∀ us, Derives js l s.left us left → Derives js l s.left (us ++ ts) e
  arguments : ∀ {args : List Expr} {s s' : FormulaParser} {es : List Expr},
    parseArguments js fuel args s = some (es, s') → s'.failure = none →
      s'.After s ∧ ∃ ts e bs, es = args ++ e :: bs ∧ s.rest = ts ++ s'.rest ∧
        DerivesSome js s.left ts (e :: bs)

namespace SoundUpTo

variable {fuel : ℕ} {s s' : FormulaParser} {e : Expr}

theorem primary (ih : SoundUpTo js fuel)
    (h : Sone.parse js (fuel + 1) .primary s = some (e, s')) (hok : s'.failure = none) :
    s'.After s ∧ ∃ ts, s.rest = ts ++ s'.rest ∧ Derives js .primary s.left ts e := by
  obtain ⟨hfailure, hdepth, hstep⟩ := primaryStep_of_parse h hok
  have hleft : s.left = s.enter.left + 1 := by
    simp only [FormulaParser.left, FormulaParser.enter]
    omega
  rw [hleft]
  -- a token alone
  have htoken : ∀ {e : Expr}, s.peek.kind ≠ .finish →
      Derives js .primary (s.enter.left + 1) [s.peek] e →
      s.advance.After s ∧ ∃ ts, s.rest = ts ++ s.advance.rest ∧
        Derives js .primary (s.enter.left + 1) ts e :=
    fun hpeek he => ⟨rfl, [s.peek], FormulaParser.rest_eq_of_peek hpeek, he⟩
  cases hstep with
  | number hk => exact htoken (by simp [hk]) (.number _ hk)
  | text hk => exact htoken (by simp [hk]) (.text _ hk)
  | field hk => exact htoken (by simp [hk]) (.field _ hk)
  | boolean hk hword => exact htoken (by simp [hk]) (.boolean _ hk hword)
  | column hk htrue hfalse hnot _ =>
    exact htoken (by simp [hk]) (.column _ hk htrue hfalse hnot)
  | not hk hword hread =>
    obtain ⟨heq, ts, hrest, hder⟩ := ih.parse hread hok
    refine ⟨by rw [heq]; rfl, s.peek :: ts, ?_, .not _ hk hword hder⟩
    rw [FormulaParser.rest_eq_of_peek (by simp [hk]), cons_append]
    exact congrArg _ hrest
  | neg hk hread =>
    obtain ⟨heq, ts, hrest, hder⟩ := ih.parse hread hok
    refine ⟨by rw [heq]; rfl, s.peek :: ts, ?_, .neg _ hk hder⟩
    rw [FormulaParser.rest_eq_of_peek (by simp [hk]), cons_append]
    exact congrArg _ hrest
  | @brackets e s₁ hk hread hclose =>
    obtain ⟨heq, ts, hrest, hder⟩ := ih.parse hread hok
    have hclose := FormulaParser.isOp_iff.mp hclose
    refine ⟨by rw [heq]; rfl, s.peek :: (ts ++ [s₁.peek]), ?_, .brackets _ _ hk hclose hder⟩
    rw [FormulaParser.rest_eq_of_peek (by simp [hk]), cons_append, append_assoc]
    refine congrArg _ (hrest.trans (congrArg _ ?_))
    exact FormulaParser.rest_eq_of_peek (by simp [hclose])
  | callNone hk htrue hfalse hnot hopen hclose =>
    have hopen := FormulaParser.isOp_iff.mp hopen
    have hclose := FormulaParser.isOp_iff.mp hclose
    refine ⟨rfl, s.peek :: s.advance.peek :: ([] ++ [s.advance.advance.peek]), ?_,
      .call _ _ _ hk htrue hfalse hnot hopen hclose .none⟩
    rw [FormulaParser.rest_eq_of_peek (by simp [hk] : s.peek.kind ≠ .finish),
      FormulaParser.rest_eq_of_peek (by simp [hopen] : s.advance.peek.kind ≠ .finish),
      FormulaParser.rest_eq_of_peek (by simp [hclose] : s.advance.advance.peek.kind ≠ .finish)]
    rfl
  | @call word args s₁ hk htrue hfalse hnot hopen _ hread hclose =>
    obtain ⟨heq, ts, e, bs, rfl, hrest, hder⟩ := ih.arguments hread hok
    have hopen := FormulaParser.isOp_iff.mp hopen
    have hclose := FormulaParser.isOp_iff.mp hclose
    refine ⟨by rw [heq]; rfl, s.peek :: s.advance.peek :: (ts ++ [s₁.peek]), ?_,
      .call _ _ _ hk htrue hfalse hnot hopen hclose (.some hder)⟩
    rw [FormulaParser.rest_eq_of_peek (by simp [hk] : s.peek.kind ≠ .finish),
      FormulaParser.rest_eq_of_peek (by simp [hopen] : s.advance.peek.kind ≠ .finish),
      cons_append, cons_append, append_assoc]
    refine congrArg _ (congrArg _ (hrest.trans (congrArg _ ?_)))
    exact FormulaParser.rest_eq_of_peek (by simp [hclose])

theorem chain (ih : SoundUpTo js fuel) {l : Precedence} {f : Expr → Expr}
    (h : ((Sone.parse js fuel l.next s).bind fun r => parseBinary js fuel l (f r.1) r.2) =
      some (e, s')) (hok : s'.failure = none) :
    s'.After s ∧ ∃ ts us e₁, s.rest = ts ++ us ++ s'.rest ∧ Derives js l.next s.left ts e₁ ∧
      ∀ vs, Derives js l s.left vs (f e₁) → Derives js l s.left (vs ++ us) e := by
  obtain ⟨⟨e₁, s₁⟩, hfirst, hloop⟩ := bind_eq_some_iff.mp h
  obtain ⟨hafter', us, hrest', hder'⟩ := ih.binary hloop hok
  obtain ⟨hafter, ts, hrest, hder⟩ := ih.parse hfirst (hafter'.failure.trans hok)
  rw [hafter.left] at hder'
  refine ⟨hafter'.trans hafter, ts, us, e₁, ?_, hder, hder'⟩
  rw [hrest, hrest', append_assoc]

theorem operand (ih : SoundUpTo js fuel) {l : Precedence} (hl : l ≠ .primary)
    (h : Sone.parse js (fuel + 1) l s = some (e, s')) (hok : s'.failure = none) :
    s'.After s ∧ ∃ ts, s.rest = ts ++ s'.rest ∧ Derives js l s.left ts e := by
  rw [parse_operand hl] at h
  obtain ⟨hafter, ts, us, e₁, hrest, hder, hmore⟩ := @chain _ _ _ _ _ ih l (fun e => e) h hok
  exact ⟨hafter, ts ++ us, hrest, hmore ts (.operand hl hder)⟩

theorem loop (ih : SoundUpTo js fuel) {l : Precedence} {left : Expr}
    (h : parseBinary js (fuel + 1) l left s = some (e, s')) (hok : s'.failure = none) :
    s'.After s ∧ ∃ ts, s.rest = ts ++ s'.rest ∧
      ∀ us, Derives js l s.left us left → Derives js l s.left (us ++ ts) e := by
  rw [parseBinary] at h
  split at h
  · obtain ⟨rfl, rfl⟩ := Prod.mk.inj (some.inj h)
    exact ⟨rfl, [], rfl, fun us hus => by rwa [append_nil]⟩
  · rename_i op hop
    have hpeek : s.peek.kind ≠ .finish := by
      intro hfinish
      rw [hfinish, operator_finish] at hop
      cases hop
    obtain ⟨hafter, ts, us, e₁, hrest, hder, hmore⟩ :=
      @chain _ _ _ _ _ ih l (.binary op left) h hok
    refine ⟨hafter, s.peek :: (ts ++ us), ?_, fun vs hvs => ?_⟩
    · rw [FormulaParser.rest_eq_of_peek hpeek, hrest, cons_append]
    · have hbinary := hmore _ (.binary s.peek hop hvs hder)
      rwa [append_assoc] at hbinary

theorem argumentList (ih : SoundUpTo js fuel) {args es : List Expr}
    (h : parseArguments js (fuel + 1) args s = some (es, s')) (hok : s'.failure = none) :
    s'.After s ∧ ∃ ts e bs, es = args ++ e :: bs ∧ s.rest = ts ++ s'.rest ∧
      DerivesSome js s.left ts (e :: bs) := by
  rw [parseArguments] at h
  obtain ⟨⟨e₁, s₁⟩, hfirst, hmore⟩ := bind_eq_some_iff.mp h
  simp only at hmore
  split at hmore
  · rename_i hcomma
    have hcomma := FormulaParser.isOp_iff.mp hcomma
    obtain ⟨hafter', us, e₂, bs, rfl, hrest', hder'⟩ := ih.arguments hmore hok
    obtain ⟨hafter, ts, hrest, hder⟩ := ih.parse hfirst (hafter'.failure.trans hok)
    have hleft : s₁.advance.left = s.left := hafter.left
    rw [hleft] at hder'
    have hadvance : s₁.advance.After s := by
      rw [FormulaParser.After, hafter]
      rfl
    refine ⟨hafter'.trans hadvance, ts ++ s₁.peek :: us, e₁, e₂ :: bs, by simp, ?_,
      .more _ hcomma hder hder'⟩
    rw [hrest, FormulaParser.rest_eq_of_peek (by simp [hcomma]), hrest', append_assoc,
      cons_append]
  · obtain ⟨rfl, rfl⟩ := Prod.mk.inj (some.inj hmore)
    obtain ⟨hafter, ts, hrest, hder⟩ := ih.parse hfirst hok
    exact ⟨hafter, ts, e₁, [], rfl, hrest, .one hder⟩

end SoundUpTo

theorem soundUpTo (fuel : ℕ) : SoundUpTo js fuel := by
  induction fuel with
  | zero => exact ⟨fun h => by simp [parse] at h, fun h => by simp [parseBinary] at h,
      fun h => by simp [parseArguments] at h⟩
  | succ fuel ih =>
    refine ⟨fun {l} _ _ _ h hok => ?_, fun h hok => ih.loop h hok,
      fun h hok => ih.argumentList h hok⟩
    by_cases hl : l = .primary
    · subst hl
      exact ih.primary h hok
    · exact ih.operand hl h hok

/-! ### More fuel -/

theorem read_succ (fuel : ℕ) :
    (∀ {l : Precedence} {s : FormulaParser} {r : Expr × FormulaParser},
      parse js fuel l s = some r → parse js (fuel + 1) l s = some r) ∧
    (∀ {l : Precedence} {left : Expr} {s : FormulaParser} {r : Expr × FormulaParser},
      parseBinary js fuel l left s = some r → parseBinary js (fuel + 1) l left s = some r) ∧
    ∀ {args : List Expr} {s : FormulaParser} {r : List Expr × FormulaParser},
      parseArguments js fuel args s = some r → parseArguments js (fuel + 1) args s = some r := by
  induction fuel with
  | zero => exact ⟨fun h => by simp [parse] at h, fun h => by simp [parseBinary] at h,
      fun h => by simp [parseArguments] at h⟩
  | succ fuel ih =>
    obtain ⟨ihParse, ihBinary, ihArguments⟩ := ih
    -- a computation inside another
    have hmap : ∀ {α β : Type} {f : α → β} {x y : Option α} {b : β},
        (∀ a, x = some a → y = some a) → x.map f = some b → y.map f = some b := by
      intro α β f x y b hxy h
      obtain ⟨a, ha, hb⟩ := map_eq_some_iff.mp h
      rw [hxy a ha]
      exact congrArg some hb
    refine ⟨fun {l s r} h => ?_, fun {l left s r} h => ?_, fun {args s r} h => ?_⟩
    · by_cases hl : l = .primary
      · subst hl
        rw [parse] at h ⊢
        split
        · rename_i hfailure
          rwa [if_pos hfailure] at h
        rename_i hfailure
        rw [if_neg hfailure] at h
        split
        · rename_i hdepth
          rwa [if_pos hdepth] at h
        rename_i hdepth
        rw [if_neg hdepth] at h
        refine hmap (fun r hr => ?_) h
        split at hr
        · exact hr
        · exact hr
        · exact hr
        · split at hr
          · rwa [if_pos ‹_›]
          rw [if_neg ‹_›]
          split at hr
          · rw [if_pos ‹_›]
            exact hmap (fun _ => ihParse) hr
          rw [if_neg ‹_›]
          split at hr
          · rw [if_pos ‹_›]
            split at hr
            · rwa [if_pos ‹_›]
            · rw [if_neg ‹_›]
              exact hmap (fun _ => ihArguments) hr
          · rwa [if_neg ‹_›]
        · split at hr
          · rw [if_pos ‹_›]
            exact hmap (fun _ => ihParse) hr
          rw [if_neg ‹_›]
          split at hr
          · rw [if_pos ‹_›]
            exact hmap (fun _ => ihParse) hr
          · rwa [if_neg ‹_›]
        · exact hr
      · rw [parse_operand hl] at h ⊢
        obtain ⟨r₁, hfirst, hloop⟩ := bind_eq_some_iff.mp h
        rw [ihParse hfirst]
        exact ihBinary hloop
    · rw [parseBinary] at h ⊢
      split at h
      · exact h
      · obtain ⟨r₁, hfirst, hloop⟩ := bind_eq_some_iff.mp h
        rw [ihParse hfirst]
        exact ihBinary hloop
    · rw [parseArguments] at h ⊢
      obtain ⟨r₁, hfirst, hmore⟩ := bind_eq_some_iff.mp h
      rw [ihParse hfirst, bind_some]
      split at hmore
      · rw [if_pos ‹_›]
        exact ihArguments hmore
      · rwa [if_neg ‹_›]

/-! ### Reading, with enough fuel -/

def ReadsExpr (js : Js) (l : Precedence) (s : FormulaParser) (r : Expr × FormulaParser) : Prop :=
  ∃ fuel, parse js fuel l s = some r

def GoesOn (js : Js) (l : Precedence) (left : Expr) (s : FormulaParser)
    (r : Expr × FormulaParser) : Prop := ∃ fuel, parseBinary js fuel l left s = some r

/-- A call reads the arguments that are left. -/
def ReadsAll (js : Js) (args : List Expr) (s : FormulaParser) (r : List Expr × FormulaParser) :
    Prop := ∃ fuel, parseArguments js fuel args s = some r

section Fuel

variable {fuel fuel' : ℕ} {l : Precedence} {left : Expr} {s : FormulaParser}
  {r : Expr × FormulaParser}

theorem parse_of_le (hle : fuel ≤ fuel') (h : parse js fuel l s = some r) :
    parse js fuel' l s = some r := by
  induction hle with
  | refl => exact h
  | step _ ih => exact (read_succ _).1 ih

theorem parseBinary_of_le (hle : fuel ≤ fuel') (h : parseBinary js fuel l left s = some r) :
    parseBinary js fuel' l left s = some r := by
  induction hle with
  | refl => exact h
  | step _ ih => exact (read_succ _).2.1 ih

theorem parseArguments_of_le {args : List Expr} {r : List Expr × FormulaParser}
    (hle : fuel ≤ fuel') (h : parseArguments js fuel args s = some r) :
    parseArguments js fuel' args s = some r := by
  induction hle with
  | refl => exact h
  | step _ ih => exact (read_succ _).2.2 ih

theorem ReadsExpr.operand {r₁ : Expr × FormulaParser} (hl : l ≠ .primary)
    (hfirst : ReadsExpr js l.next s r₁) (hloop : GoesOn js l r₁.1 r₁.2 r) : ReadsExpr js l s r := by
  obtain ⟨fuel, hfirst⟩ := hfirst
  obtain ⟨fuel', hloop⟩ := hloop
  refine ⟨max fuel fuel' + 1, ?_⟩
  rw [parse_operand hl, parse_of_le (Nat.le_max_left _ _) hfirst]
  exact parseBinary_of_le (Nat.le_max_right _ _) hloop

theorem GoesOn.stop (h : l.operator js s.peek.kind = none) : GoesOn js l left s (left, s) := by
  refine ⟨1, ?_⟩
  rw [parseBinary, h]

theorem GoesOn.step {op : BinaryOp} {r₁ : Expr × FormulaParser}
    (hop : l.operator js s.peek.kind = some op) (hfirst : ReadsExpr js l.next s.advance r₁)
    (hloop : GoesOn js l (.binary op left r₁.1) r₁.2 r) : GoesOn js l left s r := by
  obtain ⟨fuel, hfirst⟩ := hfirst
  obtain ⟨fuel', hloop⟩ := hloop
  refine ⟨max fuel fuel' + 1, ?_⟩
  rw [parseBinary, hop]
  simp only
  rw [parse_of_le (Nat.le_max_left _ _) hfirst]
  exact parseBinary_of_le (Nat.le_max_right _ _) hloop

theorem ReadsAll.last {args : List Expr} {e : Expr} {s₁ : FormulaParser}
    (hfirst : ReadsExpr js .or s (e, s₁)) (h : s₁.isOp "," = false) :
    ReadsAll js args s (args ++ [e], s₁) := by
  obtain ⟨fuel, hfirst⟩ := hfirst
  refine ⟨fuel + 1, ?_⟩
  rw [parseArguments, hfirst, bind_some, if_neg (by simp [h])]

theorem ReadsAll.more {args : List Expr} {e : Expr} {s₁ : FormulaParser}
    {r : List Expr × FormulaParser} (hfirst : ReadsExpr js .or s (e, s₁)) (h : s₁.isOp "," = true)
    (hrest : ReadsAll js (args ++ [e]) s₁.advance r) : ReadsAll js args s r := by
  obtain ⟨fuel, hfirst⟩ := hfirst
  obtain ⟨fuel', hrest⟩ := hrest
  refine ⟨max fuel fuel' + 1, ?_⟩
  rw [parseArguments, parse_of_le (Nat.le_max_left _ _) hfirst, bind_some, if_pos h]
  exact parseArguments_of_le (Nat.le_max_right _ _) hrest

end Fuel

/-! ### What stops a parser -/

def headKind (ts : List Token) : TokenKind := (ts.headD ⟨.finish, 0⟩).kind

theorem FormulaParser.kind_peek (s : FormulaParser) : s.peek.kind = headKind s.rest := by
  rw [peek, headKind]
  cases s.rest <;> rfl

def Precedence.rank : Precedence → ℕ
  | .or => 0
  | .and => 1
  | .comparison => 2
  | .sum => 3
  | .product => 4
  | .primary => 5

/-- **Nothing above a level** goes on at these tokens: no operator binds tighter, and no bracket
makes a call of a name. -/
structure StopsAbove (js : Js) (l : Precedence) (ts : List Token) : Prop where
  bracket : headKind ts ≠ .op "("
  operator : ∀ l' : Precedence, l.rank < l'.rank → l'.operator js (headKind ts) = none

theorem rank_next {l : Precedence} (h : l ≠ .primary) : l.next.rank = l.rank + 1 := by
  cases l
  · rfl
  · rfl
  · rfl
  · rfl
  · rfl
  · exact absurd rfl h

theorem StopsAbove.next {l : Precedence} {ts : List Token} (hl : l ≠ .primary)
    (h : StopsAbove js l ts) : StopsAbove js l.next ts := by
  refine ⟨h.bracket, fun l' hlt => h.operator l' ?_⟩
  rw [rank_next hl] at hlt
  exact Nat.lt_of_succ_lt hlt

theorem operator_unique {l l' : Precedence} {kind : TokenKind} {op : BinaryOp}
    (h : l.operator js kind = some op) (hne : l'.rank ≠ l.rank) : l'.operator js kind = none := by
  cases kind with
  | name word =>
    cases l <;> cases l' <;> simp_all [Precedence.operator, Precedence.rank]
  | op value =>
    cases l <;> cases l' <;> simp_all [Precedence.operator, Precedence.rank]
    all_goals split at h <;> simp_all
  | _ => cases l <;> simp [Precedence.operator] at h

theorem stopsAbove_of_operator {l : Precedence} {t : Token} {op : BinaryOp} (ts : List Token)
    (h : l.operator js t.kind = some op) : StopsAbove js l (t :: ts) := by
  refine ⟨fun hbracket => ?_, fun l' hlt => operator_unique h (Nat.ne_of_gt hlt)⟩
  have hkind : t.kind = .op "(" := hbracket
  rw [hkind] at h
  cases l <;> simp [Precedence.operator] at h

theorem stopsAbove_of_op {t : Token} {value : String} (ts : List Token) (h : t.kind = .op value)
    (hvalue : value = ")" ∨ value = ",") (l : Precedence) :
    StopsAbove js l (t :: ts) ∧ l.operator js t.kind = none := by
  have hnone : ∀ l' : Precedence, l'.operator js t.kind = none := by
    intro l'
    rw [h]
    rcases hvalue with rfl | rfl <;> cases l' <;> rfl
  refine ⟨⟨?_, fun l' _ => hnone l'⟩, hnone l⟩
  rw [headKind, headD_cons, h]
  rcases hvalue with rfl | rfl <;> simp

/-! ### What derives is read -/

/-- How a parser goes on from an expression it has read at a level. -/
def Continues (js : Js) (l : Precedence) (e : Expr) (s : FormulaParser)
    (r : Expr × FormulaParser) : Prop :=
  if l = .primary then r = (e, s) else GoesOn js l e s r

theorem continues_self {l : Precedence} {e : Expr} {s : FormulaParser}
    (h : l.operator js s.peek.kind = none) : Continues js l e s (e, s) := by
  rw [Continues]
  split
  · rfl
  · exact .stop h

theorem Derives.head {l : Precedence} {d : ℕ} {ts : List Token} {e : Expr} :
    Derives js l d ts e → ∃ t us, ts = t :: us ∧ t.kind ≠ .op ")"
  | .operand _ h => h.head
  | .binary t _ hleft _ => by
    obtain ⟨first, us, rfl, hfirst⟩ := hleft.head
    exact ⟨first, _, rfl, hfirst⟩
  | .number t ht => ⟨t, [], rfl, by simp [ht]⟩
  | .text t ht => ⟨t, [], rfl, by simp [ht]⟩
  | .field t ht => ⟨t, [], rfl, by simp [ht]⟩
  | .boolean t ht _ => ⟨t, [], rfl, by simp [ht]⟩
  | .column t ht _ _ _ => ⟨t, [], rfl, by simp [ht]⟩
  | .not t ht _ _ => ⟨t, _, rfl, by simp [ht]⟩
  | .neg t ht _ => ⟨t, _, rfl, by simp [ht]⟩
  | .brackets t _ ht _ _ => ⟨t, _, rfl, by simp [ht]⟩
  | .call t _ _ ht _ _ _ _ _ _ => ⟨t, _, rfl, by simp [ht]⟩

theorem DerivesSome.head {d : ℕ} {ts : List Token} {es : List Expr} :
    DerivesSome js d ts es → ∃ t us, ts = t :: us ∧ t.kind ≠ .op ")"
  | .one h => h.head
  | .more _ _ h _ => by
    obtain ⟨first, us, rfl, hfirst⟩ := h.head
    exact ⟨first, _, rfl, hfirst⟩

theorem FormulaParser.before {d : ℕ} {s : FormulaParser} {t : Token} {ts : List Token}
    (hrest : s.rest = t :: ts) (hd : d + 1 ≤ s.left) :
    s.peek = t ∧ s.advance.rest = ts ∧ s.depth < maxFormulaDepth ∧ d ≤ s.enter.left := by
  simp only [left, enter, peek, advance] at *
  rw [hrest]
  exact ⟨rfl, rfl, by omega, by omega⟩

theorem reads_of_primaryStep {fuel : ℕ} {s s' : FormulaParser} {e : Expr} {rest : List Token}
    {r : Expr × FormulaParser} (hfailure : s.failure = none) (hdepth : s.depth < maxFormulaDepth)
    (h : PrimaryStep js fuel s e s') (hs' : s' = { s with rest := rest })
    (hcont : Continues js .primary e { s with rest := rest } r) : ReadsExpr js .primary s r := by
  rw [Continues, if_pos rfl] at hcont
  rw [hcont, ← hs']
  exact ⟨fuel + 1, parse_of_primaryStep hfailure hdepth h⟩

/-- **Tokens are read as an expression**: a parser before them goes on from it. -/
def ReadAs (js : Js) (l : Precedence) (d : ℕ) (ts : List Token) (e : Expr) : Prop :=
  ∀ (s : FormulaParser) (rest : List Token) (r : Expr × FormulaParser),
    s.failure = none → s.rest = ts ++ rest → d ≤ s.left → StopsAbove js l rest →
      Continues js l e { s with rest := rest } r → ReadsExpr js l s r

/-- **Tokens are read as arguments**, up to a closing bracket. -/
def ReadAllAs (js : Js) (d : ℕ) (ts : List Token) (es : List Expr) : Prop :=
  ∀ (args : List Expr) (s : FormulaParser) (u : Token) (rest : List Token),
    s.failure = none → s.rest = ts ++ u :: rest → u.kind = .op ")" → d ≤ s.left →
      ReadsAll js args s (args ++ es, { s with rest := u :: rest })

section Constructors

variable {l : Precedence} {d : ℕ} {ts us : List Token} {t o u : Token} {e : Expr} {word : String}

theorem readAs_operand (hl : l ≠ .primary) (h : ReadAs js l.next d ts e) : ReadAs js l d ts e := by
  intro s rest r hfailure hrest hd hstops hcont
  rw [Continues, if_neg hl] at hcont
  refine .operand hl (h s rest _ hfailure hrest hd (hstops.next hl) (continues_self ?_)) hcont
  rw [FormulaParser.kind_peek]
  exact hstops.operator _ (by rw [rank_next hl]; exact Nat.lt_succ_self _)

theorem readAs_binary {op : BinaryOp} {left right : Expr} (ht : l.operator js t.kind = some op)
    (hleft : ReadAs js l d ts left) (hright : ReadAs js l.next d us right) :
    ReadAs js l d (ts ++ t :: us) (.binary op left right) := by
  intro s rest r hfailure hrest hd hstops hcont
  have hl : l ≠ .primary := by
    rintro rfl
    rw [operator_primary] at ht
    cases ht
  rw [Continues, if_neg hl] at hcont
  refine hleft s _ r hfailure (hrest.trans (append_assoc ..)) hd
    (stopsAbove_of_operator _ ht) ?_
  rw [Continues, if_neg hl]
  refine .step ht (hright _ rest _ hfailure rfl hd (hstops.next hl) (continues_self ?_)) hcont
  rw [FormulaParser.kind_peek]
  exact hstops.operator _ (by rw [rank_next hl]; exact Nat.lt_succ_self _)

theorem readAs_token (h : ∀ s : FormulaParser, s.peek = t → headKind s.advance.rest ≠ .op "(" →
    PrimaryStep js 0 s e s.advance) : ReadAs js .primary (d + 1) [t] e := by
  intro s rest r hfailure hrest hd hstops hcont
  obtain ⟨hpeek, hadvance, hdepth, -⟩ := FormulaParser.before hrest hd
  exact reads_of_primaryStep hfailure hdepth (h s hpeek (hadvance ▸ hstops.bracket))
    (congrArg (fun ts => { s with rest := ts }) hadvance) hcont

theorem readAs_column (ht : t.kind = .name word) (htrue : js.lowerCase word ≠ "true")
    (hfalse : js.lowerCase word ≠ "false") (hnot : js.lowerCase word ≠ "not") :
    ReadAs js .primary (d + 1) [t] (.field word) := by
  refine readAs_token fun s hpeek hbracket => .column (hpeek ▸ ht) htrue hfalse hnot ?_
  rw [FormulaParser.isOp, FormulaParser.kind_peek]
  exact decide_eq_false hbracket

theorem readAs_unary {op : UnaryOp} (hstep : ∀ (fuel : ℕ) (s s₁ : FormulaParser), s.peek = t →
      parse js fuel .primary s.enter.advance = some (e, s₁) →
        PrimaryStep js fuel s (.unary op e) s₁.leave)
    (h : ReadAs js .primary d ts e) : ReadAs js .primary (d + 1) (t :: ts) (.unary op e) := by
  intro s rest r hfailure hrest hd hstops hcont
  obtain ⟨hpeek, hadvance, hdepth, hleft⟩ := FormulaParser.before hrest hd
  obtain ⟨fuel, hread⟩ := h s.enter.advance rest _ hfailure hadvance hleft hstops
    (continues_self (operator_primary _))
  exact reads_of_primaryStep hfailure hdepth (hstep fuel s _ hpeek hread) rfl hcont

theorem readAs_brackets (ht : t.kind = .op "(") (hu : u.kind = .op ")")
    (h : ReadAs js .or d ts e) : ReadAs js .primary (d + 1) (t :: (ts ++ [u])) e := by
  intro s rest r hfailure hrest hd hstops hcont
  obtain ⟨hpeek, hadvance, hdepth, hleft⟩ := FormulaParser.before hrest hd
  obtain ⟨habove, hnone⟩ := @stopsAbove_of_op js u ")" rest hu (.inl rfl) .or
  have hinner : ReadsExpr js .or s.enter.advance (e, { s.enter.advance with rest := u :: rest }) :=
    h _ _ _ hfailure (hadvance.trans (append_assoc ..)) hleft habove (continues_self hnone)
  obtain ⟨fuel, hread⟩ := hinner
  exact reads_of_primaryStep hfailure hdepth
    (.brackets (hpeek ▸ ht) hread (FormulaParser.isOp_iff.mpr hu)) rfl hcont

theorem readAs_callNone (ht : t.kind = .name word) (htrue : js.lowerCase word ≠ "true")
    (hfalse : js.lowerCase word ≠ "false") (hnot : js.lowerCase word ≠ "not")
    (ho : o.kind = .op "(") (hu : u.kind = .op ")") :
    ReadAs js .primary (d + 1) (t :: o :: ([] ++ [u])) (.call (js.lowerCase word) []) := by
  intro s rest r hfailure hrest hd hstops hcont
  obtain ⟨hpeek, hadvance, hdepth, hleft⟩ := FormulaParser.before hrest hd
  have hargs : s.advance.advance.rest = u :: rest := congrArg List.tail hadvance
  have hopen : s.advance.isOp "(" = true := by
    rw [FormulaParser.isOp_iff, FormulaParser.kind_peek, hadvance]
    exact ho
  have hclose : s.advance.advance.isOp ")" = true := by
    rw [FormulaParser.isOp_iff, FormulaParser.kind_peek, hargs]
    exact hu
  exact reads_of_primaryStep hfailure hdepth
    (.callNone (hpeek ▸ ht) htrue hfalse hnot hopen hclose : PrimaryStep js 0 s _ _)
    (congrArg (fun ts => { s with rest := List.tail ts }) hargs) hcont

theorem readAs_call {args : List Expr} (ht : t.kind = .name word)
    (htrue : js.lowerCase word ≠ "true") (hfalse : js.lowerCase word ≠ "false")
    (hnot : js.lowerCase word ≠ "not") (ho : o.kind = .op "(") (hu : u.kind = .op ")")
    (hhead : ∃ first us, ts = first :: us ∧ first.kind ≠ .op ")") (h : ReadAllAs js d ts args) :
    ReadAs js .primary (d + 1) (t :: o :: (ts ++ [u])) (.call (js.lowerCase word) args) := by
  intro s rest r hfailure hrest hd hstops hcont
  obtain ⟨hpeek, hadvance, hdepth, hleft⟩ := FormulaParser.before hrest hd
  have hargs : s.advance.advance.rest = ts ++ u :: rest :=
    (congrArg List.tail hadvance).trans (append_assoc ..)
  have hopen : s.advance.isOp "(" = true := by
    rw [FormulaParser.isOp_iff, FormulaParser.kind_peek, hadvance]
    exact ho
  have hsome : s.advance.advance.isOp ")" = false := by
    obtain ⟨first, us, hts, hfirst⟩ := hhead
    rw [FormulaParser.isOp, FormulaParser.kind_peek, hargs, hts]
    exact decide_eq_false hfirst
  obtain ⟨fuel, hread⟩ := h [] s.enter.advance.advance u rest hfailure hargs hu hleft
  exact reads_of_primaryStep hfailure hdepth
    (.call (hpeek ▸ ht) htrue hfalse hnot hopen hsome hread (FormulaParser.isOp_iff.mpr hu))
    rfl hcont

theorem readAllAs_one (h : ReadAs js .or d ts e) : ReadAllAs js d ts [e] := by
  intro args s u rest hfailure hrest hu hd
  obtain ⟨hstops, hnone⟩ := @stopsAbove_of_op js u ")" rest hu (.inl rfl) .or
  refine .last (h s _ _ hfailure hrest hd hstops (continues_self hnone)) ?_
  rw [FormulaParser.isOp, FormulaParser.kind_peek]
  refine decide_eq_false fun hcomma => ?_
  rw [headKind, headD_cons, hu] at hcomma
  exact absurd (TokenKind.op.inj hcomma) (by decide)

theorem readAllAs_more {es : List Expr} (ht : t.kind = .op ",") (h : ReadAs js .or d ts e)
    (hall : ReadAllAs js d us es) : ReadAllAs js d (ts ++ t :: us) (e :: es) := by
  intro args s u rest hfailure hrest hu hd
  obtain ⟨hstops, hnone⟩ := @stopsAbove_of_op js t "," (us ++ u :: rest) ht (.inr rfl) .or
  have hfirst : ReadsExpr js .or s (e, { s with rest := t :: (us ++ u :: rest) }) :=
    h _ _ _ hfailure (hrest.trans (append_assoc ..)) hd hstops (continues_self hnone)
  have hmore := hall (args ++ [e]) { s with rest := us ++ u :: rest } u rest hfailure rfl hu hd
  rw [append_assoc] at hmore
  exact .more hfirst (FormulaParser.isOp_iff.mpr ht) hmore

end Constructors

mutual

/-- **What derives is read.** -/
theorem Derives.readAs {l : Precedence} {d : ℕ} {ts : List Token} {e : Expr} :
    Derives js l d ts e → ReadAs js l d ts e
  | .operand hl h => readAs_operand hl h.readAs
  | .binary _ ht hleft hright => readAs_binary ht hleft.readAs hright.readAs
  | .number _ ht => readAs_token fun _ hpeek _ => .number (hpeek ▸ ht)
  | .text _ ht => readAs_token fun _ hpeek _ => .text (hpeek ▸ ht)
  | .field _ ht => readAs_token fun _ hpeek _ => .field (hpeek ▸ ht)
  | .boolean _ ht hword => readAs_token fun _ hpeek _ => .boolean (hpeek ▸ ht) hword
  | .column _ ht htrue hfalse hnot => readAs_column ht htrue hfalse hnot
  | .not _ ht hword h => readAs_unary (fun _ _ _ hpeek => .not (hpeek ▸ ht) hword) h.readAs
  | .neg _ ht h => readAs_unary (fun _ _ _ hpeek => .neg (hpeek ▸ ht)) h.readAs
  | .brackets _ _ ht hu h => readAs_brackets ht hu h.readAs
  | .call _ _ _ ht htrue hfalse hnot ho hu .none => readAs_callNone ht htrue hfalse hnot ho hu
  | .call _ _ _ ht htrue hfalse hnot ho hu (.some h) =>
    readAs_call ht htrue hfalse hnot ho hu h.head h.readAllAs

theorem DerivesSome.readAllAs {d : ℕ} {ts : List Token} {es : List Expr} :
    DerivesSome js d ts es → ReadAllAs js d ts es
  | .one h => readAllAs_one h.readAs
  | .more _ ht h hall => readAllAs_more ht h.readAs hall.readAllAs

end

end Sone
