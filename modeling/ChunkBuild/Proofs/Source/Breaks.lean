import ChunkBuild.Proofs.Source.Stripped
import Mathlib.Data.List.Forall2
/-! # Styles of line breaks

A removed block leaves its own line breaks, but what they are read as depends on the character before
them: a return there that was no part of a break becomes one with a line feed behind it. Main statement:
as many breaks are left as there were, each as it was but for the first one of a block directly behind a
return, and that one changes exactly when it is a line feed alone. -/
namespace ChunkBuild.Source

open ChunkBuild.Text

inductive BreakStyle where
  | feed
  | returnFeed
  deriving DecidableEq, Repr

namespace BreakStyle

def text : BreakStyle → List Char
  | .feed => ['\n']
  | .returnFeed => ['\r', '\n']

def behind (isReturned : Bool) (e : BreakStyle) : BreakStyle := if isReturned then .returnFeed else e

end BreakStyle

def breakStyles : List Char → List BreakStyle
  | [] => []
  | '\r' :: '\n' :: r => .returnFeed :: breakStyles r
  | c :: r => if c = '\n' then .feed :: breakStyles r else breakStyles r

/-- What may become of a break: it stays, or a line feed gets a return before it. -/
def Becomes (old new : BreakStyle) : Prop := new = old ∨ old = .feed ∧ new = .returnFeed

def beginsWithFeed (t : List Char) : Bool := (breakStyles t).head? = some .feed

/-- The number of blocks that stand directly behind a return and whose first break is a line feed
alone; `isReturned` says whether a return stands before the parts. -/
def joinedBreaks : (isReturned : Bool) → List Piece → Nat
  | _, [] => 0
  | _, .kept c :: ps => joinedBreaks (c = '\r') ps
  | isReturned, .block b :: ps =>
    (if isReturned && beginsWithFeed b.text then 1 else 0) + joinedBreaks false ps

variable {holders : List (List Char)} {ps : List Piece} {s t x : List Char} {isReturned : Bool}

/-! ## Reading from left to right -/

def stylesFrom : (isReturned : Bool) → List Char → List BreakStyle
  | _, [] => []
  | isReturned, c :: r =>
    if c = '\n' then BreakStyle.behind isReturned .feed :: stylesFrom false r
    else stylesFrom (c = '\r') r

def endsReturned (isReturned : Bool) (t : List Char) : Bool :=
  t.getLast?.elim isReturned fun c => c = '\r'

theorem endsReturned_cons (isReturned : Bool) (c : Char) (t : List Char) :
    endsReturned isReturned (c :: t) = endsReturned (c = '\r') t := by
  cases t with
  | nil => rfl
  | cons d t => rw [endsReturned, List.getLast?_cons_cons, endsReturned, List.getLast?_cons]; rfl

theorem stylesFrom_append (isReturned : Bool) (s t : List Char) :
    stylesFrom isReturned (s ++ t) =
      stylesFrom isReturned s ++ stylesFrom (endsReturned isReturned s) t := by
  induction s generalizing isReturned with
  | nil => rfl
  | cons c s ih =>
    rw [List.cons_append, stylesFrom, stylesFrom, ih, ih, endsReturned_cons]
    by_cases hc : c = '\n'
    · subst hc
      rfl
    · rw [if_neg hc, if_neg hc]

theorem stylesFrom_of_head (h : t.head? ≠ some '\n') (isReturned : Bool) :
    stylesFrom isReturned t = stylesFrom false t := by
  cases t with
  | nil => rfl
  | cons c t =>
    have hc : c ≠ '\n' := fun hc => h (congrArg some hc)
    rw [stylesFrom, stylesFrom, if_neg hc, if_neg hc]

theorem breakStyles_eq (t : List Char) : breakStyles t = stylesFrom false t := by
  fun_induction breakStyles t with
  | case1 => rfl
  | case2 r ih =>
    rw [ih]
    rfl
  | case3 r _ ih =>
    rw [ih]
    rfl
  | case4 c r hboth hc ih =>
    rw [ih, stylesFrom, if_neg hc]
    by_cases hreturn : c = '\r'
    · have hhead : r.head? ≠ some '\n' := by
        intro hr
        obtain ⟨u, rfl⟩ := List.head?_eq_some_iff.mp hr
        exact hboth u hreturn rfl
      exact (stylesFrom_of_head hhead _).symm
    · rw [decide_eq_false hreturn]

/-! ## What a block leaves -/

theorem lineBreaks_eq_flatMap (t : List Char) :
    lineBreaks t = (breakStyles t).flatMap BreakStyle.text := by
  fun_induction lineBreaks t with
  | case1 => rfl
  | case2 r ih =>
    rw [ih]
    rfl
  | case3 r hboth ih =>
    rw [ih]
    rfl
  | case4 c r hboth hc ih =>
    rw [ih, breakStyles, if_neg hc]
    exact hboth

/-- Only the first of some breaks depends on what stands before them. -/
theorem stylesFrom_breaks (isReturned : Bool) (e : BreakStyle) (es : List BreakStyle) :
    stylesFrom isReturned ((e :: es).flatMap BreakStyle.text) = e.behind isReturned :: es := by
  induction es generalizing isReturned e with
  | nil =>
    cases e
    · rfl
    · cases isReturned <;> rfl
  | cons d es ih =>
    have hrest := ih false d
    rw [List.flatMap_cons]
    cases e with
    | feed =>
      refine congrArg (BreakStyle.behind isReturned .feed :: ·) hrest
    | returnFeed =>
      have hfirst : BreakStyle.behind isReturned .returnFeed = .returnFeed := ite_self _
      rw [hfirst]
      exact congrArg (BreakStyle.returnFeed :: ·) hrest

theorem endsReturned_breaks (isReturned : Bool) (e : BreakStyle) (es : List BreakStyle) :
    endsReturned isReturned ((e :: es).flatMap BreakStyle.text) = false := by
  induction es generalizing isReturned e with
  | nil => cases e <;> rfl
  | cons d es ih =>
    rw [List.flatMap_cons]
    cases e with
    | feed => exact (endsReturned_cons _ _ _).trans (ih _ d)
    | returnFeed => exact ((endsReturned_cons _ _ _).trans (endsReturned_cons _ _ _)).trans (ih _ d)

theorem IsBlock.stylesFrom_eq (h : IsBlock holders t) (isReturned : Bool) :
    stylesFrom isReturned t = breakStyles t ∧ endsReturned isReturned t = false := by
  obtain ⟨u, hu⟩ := h.eq_cons
  have hhead : t.head? ≠ some '\n' := by
    rw [hu]
    exact fun hc => nomatch hc
  rw [breakStyles_eq, endsReturned, h.getLast?]
  exact ⟨stylesFrom_of_head hhead _, rfl⟩

theorem IsBlock.exists_breakStyles (h : IsBlock holders t) : ∃ e es, breakStyles t = e :: es := by
  obtain ⟨before, after, hbreaks, -⟩ := h.lineBreaks_eq
  rw [lineBreaks_eq_flatMap] at hbreaks
  cases hs : breakStyles t with
  | nil =>
    rw [hs] at hbreaks
    exact absurd hbreaks.symm (List.append_ne_nil_of_right_ne_nil _ (List.cons_ne_nil _ _))
  | cons e es => exact ⟨e, es, rfl⟩

/-! ## What is left of a text -/

theorem becomes_behind (isReturned : Bool) (e : BreakStyle) : Becomes e (e.behind isReturned) := by
  cases isReturned with
  | false => exact .inl rfl
  | true =>
    cases e with
    | feed => exact .inr ⟨rfl, rfl⟩
    | returnFeed => exact .inl rfl

theorem count_behind (isReturned : Bool) (e : BreakStyle) (es : List BreakStyle) :
    (e.behind isReturned :: es).count .returnFeed = (e :: es).count .returnFeed +
      if isReturned && decide (e = .feed) then 1 else 0 := by
  cases isReturned
  · rfl
  · cases e
    · simp [BreakStyle.behind]
    · simp [BreakStyle.behind]

/-- Of the text before, both the parts and what is left of them have to know whether it ends in a
return. Behind a block neither does: it ends in a slash and leaves a line feed. -/
theorem Scan.becomes (h : Scan holders t ps) (isReturned : Bool) :
    List.Forall₂ Becomes (stylesFrom isReturned t)
      (stylesFrom isReturned (ps.flatMap Piece.stripped)) ∧
    (stylesFrom isReturned (ps.flatMap Piece.stripped)).count .returnFeed =
      (stylesFrom isReturned t).count .returnFeed + joinedBreaks isReturned ps := by
  induction h generalizing isReturned with
  | nil => exact ⟨.nil, rfl⟩
  | @kept c t ps _ _ ih =>
    change List.Forall₂ Becomes (stylesFrom isReturned (c :: t))
        (stylesFrom isReturned (c :: ps.flatMap Piece.stripped)) ∧
      (stylesFrom isReturned (c :: ps.flatMap Piece.stripped)).count .returnFeed =
        (stylesFrom isReturned (c :: t)).count .returnFeed + joinedBreaks (c = '\r') ps
    rw [stylesFrom, stylesFrom]
    by_cases hc : c = '\n'
    · subst hc
      obtain ⟨hall, hcount⟩ := ih false
      refine ⟨.cons (.inl rfl) hall, ?_⟩
      rw [if_pos rfl, if_pos rfl, List.count_cons, List.count_cons, hcount]
      exact Nat.add_right_comm _ _ _
    · rw [if_neg hc, if_neg hc]
      exact ih (c = '\r')
  | @block b t ps hb _ ih =>
    obtain ⟨hblock, -⟩ := block?_sound hb
    obtain ⟨hstyles, hend⟩ := hblock.stylesFrom_eq isReturned
    obtain ⟨e, es, he⟩ := hblock.exists_breakStyles
    obtain ⟨hall, hcount⟩ := ih false
    have hleft : stylesFrom isReturned ((Piece.block b :: ps).flatMap Piece.stripped) =
        e.behind isReturned :: es ++ stylesFrom false (ps.flatMap Piece.stripped) := by
      rw [List.flatMap_cons, Piece.stripped, lineBreaks_eq_flatMap, he, stylesFrom_append,
        stylesFrom_breaks, endsReturned_breaks]
    have hwhole : stylesFrom isReturned (b.text ++ t) = e :: es ++ stylesFrom false t := by
      rw [stylesFrom_append, hstyles, hend, he]
    have hfirst : beginsWithFeed b.text = decide (e = .feed) := by
      rw [beginsWithFeed, he]
      simp
    rw [hleft, hwhole]
    constructor
    · exact .cons (becomes_behind isReturned e)
        (List.rel_append (List.forall₂_same.mpr fun _ _ => .inl rfl) hall)
    · rw [List.count_append, List.count_append, count_behind, hcount, joinedBreaks, hfirst]
      omega

theorem eq_of_becomes {old new : List BreakStyle} (h : List.Forall₂ Becomes old new)
    (hcount : new.count .returnFeed = old.count .returnFeed) : new = old := by
  have hle {old new : List BreakStyle} (h : List.Forall₂ Becomes old new) :
      old.count .returnFeed ≤ new.count .returnFeed := by
    induction h with
    | nil => exact le_rfl
    | cons hone _ ih =>
      rcases hone with rfl | ⟨rfl, rfl⟩
      · rw [List.count_cons, List.count_cons]
        omega
      · rw [List.count_cons_self, List.count_cons_of_ne (by decide)]
        omega
  induction h with
  | nil => rfl
  | cons hone hall ih =>
    rcases hone with rfl | ⟨rfl, rfl⟩
    · rw [List.count_cons, List.count_cons, Nat.add_right_cancel_iff] at hcount
      rw [ih hcount]
    · rw [List.count_cons_self, List.count_cons_of_ne (by decide)] at hcount
      have := hle hall
      omega

/-- A block joins a return that is kept directly before it, or the one before all parts. -/
theorem joinedBreaks_eq_zero_iff : joinedBreaks isReturned ps = 0 ↔
    (isReturned = true → ∀ b after, ps = .block b :: after → beginsWithFeed b.text = false) ∧
    ∀ before b after, ps = before ++ .kept '\r' :: .block b :: after →
      beginsWithFeed b.text = false := by
  induction ps generalizing isReturned with
  | nil => simp [joinedBreaks]
  | cons p ps ih =>
    cases p with
    | kept c =>
      rw [joinedBreaks, ih]
      constructor
      · rintro ⟨hfirst, hlater⟩
        refine ⟨fun _ b after he => (nomatch he), fun before b after he => ?_⟩
        cases before with
        | nil =>
          obtain ⟨hc, hps⟩ := List.cons.inj he
          cases hc
          exact hfirst rfl b after hps
        | cons q before =>
          exact hlater before b after (List.cons.inj he).2
      · rintro ⟨-, hlater⟩
        refine ⟨fun hc b after he => ?_, fun before b after he => ?_⟩
        · obtain rfl : c = '\r' := of_decide_eq_true hc
          exact hlater [] b after (by rw [he]; rfl)
        · exact hlater (.kept c :: before) b after (by rw [he]; rfl)
    | block d =>
      rw [joinedBreaks, Nat.add_eq_zero_iff, ih]
      constructor
      · rintro ⟨hone, -, hlater⟩
        refine ⟨fun hr b after he => ?_, fun before b after he => ?_⟩
        · cases he
          cases hb : beginsWithFeed d.text with
          | false => rfl
          | true =>
            rw [hr, hb] at hone
            cases hone
        · cases before with
          | nil => cases (List.cons.inj he).1
          | cons q before => exact hlater before b after (List.cons.inj he).2
      · rintro ⟨hfirst, hlater⟩
        refine ⟨?_, fun h => (nomatch h), fun before b after he => ?_⟩
        · cases isReturned with
          | false => rfl
          | true => rw [hfirst rfl d ps rfl]; rfl
        · exact hlater (.block d :: before) b after (by rw [he]; rfl)

/-- As many line breaks are left as a text has, each as it was or, for a line feed, with a return before
it. This happens once for each block that stands directly behind a return and whose first break is a
line feed alone, so the styles of all breaks survive exactly when there is no such block. -/
theorem breakStyles_normalize (holders : List String) (s : String) :
    List.Forall₂ Becomes (breakStyles s.toList) (breakStyles (normalize holders s).1.toList) ∧
    (breakStyles (normalize holders s).1.toList).count .returnFeed =
      (breakStyles s.toList).count .returnFeed + joinedBreaks false (pieces holders s) ∧
    (breakStyles (normalize holders s).1.toList = breakStyles s.toList ↔
      ∀ before b after, pieces holders s = before ++ .kept '\r' :: .block b :: after →
        beginsWithFeed b.text = false) := by
  have hleft : (normalize holders s).1.toList = (pieces holders s).flatMap Piece.stripped :=
    String.toList_ofList
  rw [hleft, breakStyles_eq, breakStyles_eq]
  obtain ⟨hall, hcount⟩ := (scan_pieces holders s).becomes false
  refine ⟨hall, hcount, ?_⟩
  have hnone : joinedBreaks false (pieces holders s) = 0 ↔
      ∀ before b after, pieces holders s = before ++ .kept '\r' :: .block b :: after →
        beginsWithFeed b.text = false := by
    rw [joinedBreaks_eq_zero_iff]
    exact and_iff_right fun h => nomatch h
  rw [← hnone]
  constructor
  · intro hsame
    rw [hsame] at hcount
    omega
  · intro hzero
    rw [hzero, Nat.add_zero] at hcount
    exact eq_of_becomes hall hcount

def returnedText : String :=
  "\r/**\n * @license\n * Copyright 2024 Google LLC\n * SPDX-License-Identifier: Apache-2.0\n */"

/-- The first of its line feeds is left with the return before it. -/
theorem feed_joins_return :
    breakStyles (normalize defaultHolders returnedText).1.toList ≠
      breakStyles returnedText.toList := by
  decide +kernel

end ChunkBuild.Source
