import DeclTags.Profile.Builtin
import DeclTags.Proofs.Blocks
import DeclTags.Proofs.Held
import DeclTags.Proofs.Streams

set_option autoImplicit false

/-! # The order of the symbols

A symbol is reported at the brace or semicolon behind its declaration, not at its name. Between the
two other symbols may be reported, from a block that stands in the declaration's parentheses: its
candidate is suspended there, and decided when the block is closed. This is the only way in which
the order of the symbols differs from that of their names (`symbols_sorted_iff`), and it happens
(`symbols_not_sorted`).
-/

namespace DeclTags

namespace Scan

variable {g : Grammar} {source : String} {s : Scan} {ts before after : List Token} {t : Token}
  {a b : Symbol}

/-- At the token `t` the symbol `a` is reported, and behind it `b`. -/
structure ReportsBefore (g : Grammar) (source : String) (s : Scan) (before : List Token)
    (t : Token) (after : List Token) (a b : Symbol) : Prop where
  first : (run g source before s).symbol? g source t = some a
  second : b ∈ reported g source after (run g source (before ++ [t]) s)

theorem ReportsBefore.sublist (h : ReportsBefore g source s before t after a b) :
    [a, b].Sublist (reported g source (before ++ t :: after) s) := by
  have hb := h.second
  rw [run_append, run_cons, run_nil] at hb
  rw [reported_append, reported_cons, h.first]
  exact ((List.singleton_sublist.mpr hb).cons_cons a).trans (List.sublist_append_right _ _)

/-- A relation holds along the reported symbols if it holds between each and those behind it. -/
theorem reported_pairwise_iff {R : Symbol → Symbol → Prop} :
    (reported g source ts s).Pairwise R ↔
      ∀ before t after a b, ts = before ++ t :: after →
        ReportsBefore g source s before t after a b → R a b := by
  induction ts generalizing s with
  | nil =>
      simp
  | cons u us ih =>
      rw [reported_cons, List.pairwise_append, ih]
      constructor
      · rintro ⟨-, hrest, hcross⟩ before t after a b hts ⟨hfirst, hsecond⟩
        rcases before with - | ⟨v, before⟩
        · obtain ⟨rfl, rfl⟩ := List.cons.inj hts
          exact hcross a (Option.mem_toList.mpr hfirst) b hsecond
        · obtain ⟨rfl, htl⟩ := List.cons.inj hts
          exact hrest before t after a b htl ⟨hfirst, hsecond⟩
      · intro h
        refine ⟨?_, fun before t after a b hts hr => ?_, fun a ha b hb => ?_⟩
        · cases s.symbol? g source u with
          | none => exact .nil
          | some a => exact List.pairwise_singleton _ _
        · exact h (u :: before) t after a b (by rw [hts, List.cons_append]) ⟨hr.first, hr.second⟩
        · exact h [] u us a b rfl ⟨Option.mem_toList.mp ha, hb⟩

/-- The name of `b` stands in a candidate that an open brace interrupts. -/
def NameInterrupted (g : Grammar) (source : String) (before : List Token) (b : Symbol) : Prop :=
  ∃ w ∈ interrupted g source before, ∃ n ∈ w.candidate.tokens, b.span = .ofToken n

theorem nameInterrupted_iff :
    NameInterrupted g source before b ↔
      ∃ n ∈ (run g source before {}).recognizer.suspendedTokens, b.span = .ofToken n := by
  rw [Recognizer.suspendedTokens, suspended_eq_interrupted]
  constructor
  · rintro ⟨w, hw, n, hn, hb⟩
    exact ⟨n, List.mem_flatMap.mpr ⟨w, List.mem_reverse.mpr hw, hn⟩, hb⟩
  · rintro ⟨n, hn, hb⟩
    obtain ⟨w, hw, hn⟩ := List.mem_flatMap.mp hn
    exact ⟨w, List.mem_reverse.mp hw, n, hn, hb⟩

/-- Of two symbols the one reported first has its name first, unless the name of the other is
interrupted there; then it is the other way round. -/
theorem ReportsBefore.order (h : ReportsBefore g source {} before t after a b)
    (hsorted : (before ++ t :: after).Pairwise fun u v => u.start < v.start) :
    (NameInterrupted g source before b → b.span.startByte < a.span.startByte) ∧
      (¬NameInterrupted g source before b → a.span.startByte < b.span.startByte) := by
  obtain ⟨hheld, m, hm, ha⟩ := feed_held_of_symbol h.first
  have hsub : (run g source before {}).recognizer.held.Sublist before := run_held_sublist before
  obtain ⟨hbefore, -, hcross⟩ := List.pairwise_append.mp hsorted
  rw [ha]
  constructor
  · -- what is suspended was fed before what is in the candidate
    intro hb
    obtain ⟨n, hn, hb⟩ := nameInterrupted_iff.mp hb
    rw [hb]
    exact (List.pairwise_append.mp (hbefore.sublist hsub)).2.2 n hn m hm
  · -- the candidate of `a` is dropped, so the name of `b` is suspended or still to come
    intro hb
    obtain ⟨n, hn, hspan⟩ := reported_span h.second
    rw [run_append, run_cons, run_nil, hheld] at hn
    rw [hspan]
    rcases List.mem_append.mp hn with hn | hn
    · exact absurd (nameInterrupted_iff.mpr ⟨n, hn, hspan⟩) hb
    · have hm' : m ∈ before := hsub.subset (List.mem_append_right _ hm)
      exact hcross m hm' n (List.mem_cons_of_mem _ hn)

end Scan

/-- The source declares `a` in a block that stands in the parentheses of the declaration of `b`,
behind its name: where `a` is reported, an open brace interrupts the candidate of `b`. -/
def DeclaredInside (g : Grammar) (source : List Char) (a b : Symbol) : Prop :=
  ∃ before t after, tokensOf g source = before ++ t :: after ∧
    Scan.ReportsBefore g (String.ofList source) {} before t after a b ∧
    Scan.NameInterrupted g (String.ofList source) before b

/-- **The symbols are in the order of their names** exactly if none is declared in a block in the
parentheses of another. One that is comes out before the other, the name of which stands before its
own. No two symbols have their names at one place. -/
theorem symbols_sorted_iff (g : Grammar) (source : List Char) :
    ((scan g source).symbols.Pairwise (fun a b => a.span.startByte < b.span.startByte) ↔
      ¬∃ a b, DeclaredInside g source a b) ∧
    (∀ a b, DeclaredInside g source a b →
      [a, b].Sublist (scan g source).symbols ∧ b.span.startByte < a.span.startByte) ∧
    (scan g source).symbols.Pairwise (fun a b => a.span.startByte ≠ b.span.startByte) := by
  have hsorted := tokensOf_sorted g source
  have hinside : ∀ a b, DeclaredInside g source a b →
      b.span.startByte < a.span.startByte := by
    rintro a b ⟨before, t, after, hts, hr, hb⟩
    exact (hr.order (hts ▸ hsorted)).1 hb
  rw [scan_symbols]
  refine ⟨?_, ?_, ?_⟩
  · rw [Scan.reported_pairwise_iff]
    constructor
    · rintro hlt ⟨a, b, h⟩
      have hgt := hinside a b h
      obtain ⟨before, t, after, hts, hr, -⟩ := h
      exact Nat.lt_asymm hgt (hlt before t after a b hts hr)
    · intro hno before t after a b hts hr
      exact (hr.order (hts ▸ hsorted)).2 fun hb => hno ⟨a, b, before, t, after, hts, hr, hb⟩
  · refine fun a b h => ⟨?_, hinside a b h⟩
    obtain ⟨before, t, after, hts, hr, -⟩ := h
    exact hts ▸ hr.sublist
  · rw [Scan.reported_pairwise_iff]
    intro before t after a b hts hr heq
    by_cases hb : Scan.NameInterrupted g (String.ofList source) before b
    · exact Nat.ne_of_lt ((hr.order (hts ▸ hsorted)).1 hb) heq.symm
    · exact Nat.ne_of_lt ((hr.order (hts ▸ hsorted)).2 hb) heq

/-- The verbatim prefixes of C# by their length. -/
theorem ofProfile_csharp : Grammar.ofProfile .csharp =
    { Grammar.ofProfile { Profile.csharp with verbatimPrefixes := [] } with
      verbatimPrefixes := ["$@", "@$", "@"] } := by
  have h1 : "@".utf8ByteSize = 1 := rfl
  have h2 : "$@".utf8ByteSize = 2 := rfl
  have h3 : "@$".utf8ByteSize = 2 := rfl
  have h : (Grammar.ofProfile .csharp).verbatimPrefixes = ["$@", "@$", "@"] := by
    simp [Grammar.ofProfile, Profile.csharp, List.mergeSort, List.MergeSort.Internal.splitInTwo,
      h1, h2, h3]
  rw [← h]
  rfl

/-- **The order of the names is not kept**: a local function in the chain to another constructor
comes out before the constructor, in a language that is built in. -/
theorem symbols_not_sorted :
    (Grammar.ofProfile .csharp).Compiled ∧
    ¬(scan (.ofProfile .csharp)
        "class B { B(int x) : base(() => { void L() { } }) { } }".toList).symbols.Pairwise
      (fun a b => a.span.startByte < b.span.startByte) := by
  have hvalid : Profile.csharp.fault? = none := by decide +kernel
  refine ⟨⟨.csharp, by rw [Grammar.compile, hvalid]⟩, ?_⟩
  have hplaces : (scan (.ofProfile .csharp)
      "class B { B(int x) : base(() => { void L() { } }) { } }".toList).symbols.map
        (·.span.startByte) = [39, 10] := by
    rw [ofProfile_csharp]
    decide +kernel
  rw [← List.pairwise_map, hplaces]
  decide

end DeclTags
