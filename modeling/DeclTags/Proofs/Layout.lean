import DeclTags.Profile.Builtin
import DeclTags.Proofs.Comments
import DeclTags.Proofs.Retelling
import DeclTags.Proofs.Streams

set_option autoImplicit false

/-! # Layout is without influence

Two sources that differ in white space, comments and the contents of literals declare the same
(`scan_layout`). Their code tokens are the same up to their places and the texts of literals, so
those of the one source are relocated to those of the other (`Relocation.exists_of_gist_eq`). The
relocation keeps adjacency of any two tokens if it does of neighbours, since a token that is not the
last one takes some text (`keepsAdjacency_of_touching`). The rest is known of relocated tokens and
of comments.
-/

namespace DeclTags

/-- What structure may depend on of a single token: kind, text and whether its end is there; of
literals the text does not count. -/
def Token.gist (t : Token) : TokenKind × Bool × String :=
  (t.kind, t.terminated, if t.kind.isLiteral then "" else t.text)

/-- For each token but the last, whether the next one begins where it ends. -/
def touching (ts : List Token) : List Bool :=
  ts.zipWith (fun a b => a.stop == b.start) ts.tail

/-- What is declared, and where among the declarations. -/
def Symbol.declared (x : Symbol) : String × SymbolKind × List String × List String :=
  (x.name, x.kind, x.modifiers, x.path)

/-! ## The relocation between two sources -/

/-- Tokens of the same gist are relocated to one another, without any demand on lines. -/
theorem Relocation.exists_of_gist_eq {ts us : List Token} (hts : ts.Nodup)
    (h : ts.map Token.gist = us.map Token.gist) :
    ∃ ρ : Relocation, us = ts.map ρ.map ∧ ∀ m n, ρ.lines m n := by
  induction ts generalizing us with
  | nil =>
      obtain rfl : us = [] := List.map_eq_nil_iff.mp h.symm
      exact ⟨⟨id, fun _ _ => True, fun _ => rfl, fun _ => rfl, fun _ _ => rfl, fun _ => trivial⟩,
        rfl, fun _ _ => trivial⟩
  | cons t ts ih =>
      cases us with
      | nil => cases h
      | cons u us =>
          obtain ⟨hgist, hrest⟩ := List.cons.inj h
          obtain ⟨hnot, hnodup⟩ := List.nodup_cons.mp hts
          obtain ⟨ρ, hus, hlines⟩ := ih hnodup hrest
          obtain ⟨hkind, hother⟩ := Prod.mk.inj hgist
          obtain ⟨hterminated, htext⟩ := Prod.mk.inj hother
          -- the token is sent to its partner, all others as before
          have hmap : ∀ v, (Function.update ρ.map t u v).kind = v.kind ∧
              (Function.update ρ.map t u v).terminated = v.terminated ∧
              (v.kind.isLiteral = false → (Function.update ρ.map t u v).text = v.text) := by
            intro v
            by_cases hv : v = t
            · subst hv
              rw [Function.update_self]
              refine ⟨hkind.symm, hterminated.symm, fun hliteral => ?_⟩
              rw [← hkind, hliteral, if_neg Bool.false_ne_true, if_neg Bool.false_ne_true] at htext
              exact htext.symm
            · rw [Function.update_of_ne hv]
              exact ⟨ρ.kind_map v, ρ.terminated_map v, ρ.text_map v⟩
          refine ⟨⟨Function.update ρ.map t u, ρ.lines, fun v => (hmap v).1,
            fun v => (hmap v).2.1, fun v => (hmap v).2.2, fun v => hlines _ _⟩, ?_, hlines⟩
          show u :: us = Function.update ρ.map t u t :: ts.map (Function.update ρ.map t u)
          rw [Function.update_self, hus]
          refine congrArg (u :: ·) (List.map_congr_left fun v hv => ?_)
          have hvt : v ≠ t := fun heq => hnot (heq ▸ hv)
          rw [Function.update_of_ne hvt]

/-- The tokens stand one behind the other: each begins before the next one, and ends no later than
this begins. -/
def InOrder (ts : List Token) : Prop :=
  ts.Pairwise fun a b => a.start < b.start ∧ a.stop ≤ b.start

/-- Of tokens in order only neighbours can be adjacent. -/
theorem InOrder.not_adjacent {a b : Token} {ts : List Token} (h : InOrder (a :: b :: ts)) :
    ∀ c ∈ ts, a.stop ≠ c.start := by
  intro c hc
  obtain ⟨ha, hb⟩ := List.pairwise_cons.mp h
  have hstop : a.stop ≤ b.start := (ha b List.mem_cons_self).2
  have hstart : b.start < c.start := ((List.pairwise_cons.mp hb).1 c hc).1
  exact Nat.ne_of_lt (Nat.lt_of_le_of_lt hstop hstart)

/-- A relocation that keeps adjacency of neighbours keeps all. -/
theorem keepsAdjacency_of_touching {ρ : Relocation} {ts : List Token} (hts : InOrder ts)
    (hus : InOrder (ts.map ρ.map)) (h : touching ts = touching (ts.map ρ.map)) :
    ρ.KeepsAdjacency ts := by
  induction ts with
  | nil => exact .nil
  | cons a ts ih =>
      cases ts with
      | nil => exact List.pairwise_singleton _ _
      | cons b ts =>
          obtain ⟨hhead, htail⟩ :
              (a.stop == b.start) = ((ρ.map a).stop == (ρ.map b).start) ∧
                touching (b :: ts) = touching ((b :: ts).map ρ.map) := List.cons.inj h
          have hrest : ρ.KeepsAdjacency (b :: ts) :=
            ih (List.Pairwise.of_cons hts) (List.Pairwise.of_cons hus) htail
          refine List.pairwise_cons.mpr ⟨fun c hc => ?_, hrest⟩
          rcases List.mem_cons.mp hc with rfl | hc
          · rw [← beq_iff_eq, ← hhead, beq_iff_eq]
          · have hleft : (ρ.map a).stop ≠ (ρ.map c).start :=
              hus.not_adjacent _ (List.mem_map_of_mem hc)
            exact iff_of_false hleft (hts.not_adjacent c hc)

namespace Lexer

/-- The tokens of a lexer stand one behind the other. -/
theorem tokens_inOrder (g : Grammar) (l : Lexer) : InOrder (l.tokens g) := by
  have hstops : (l.tokens g).Pairwise fun a b => a.stop ≤ b.start := by
    refine tokens_induction (g := g)
      (motive := fun _ ts => ts.Pairwise fun a b => a.stop ≤ b.start) ?finished ?last ?more l
    case finished => exact fun _ _ => .nil
    case last => exact fun _ _ _ => List.pairwise_singleton _ _
    case more =>
      intro l _ _ ih
      exact List.pairwise_cons.mpr ⟨offset_le_start g (l.following g), ih⟩
  exact (tokens_sorted g l).and hstops

end Lexer

theorem codeTokens_inOrder (g : Grammar) (source : List Char) :
    InOrder (codeTokens (tokensOf g source)) :=
  List.Pairwise.sublist List.filter_sublist (Lexer.tokens_inOrder g (Lexer.ofSource source))

theorem InOrder.nodup {ts : List Token} (h : InOrder ts) : ts.Nodup := by
  refine List.Pairwise.imp ?_ h
  intro a b hab heq
  exact Nat.ne_of_lt hab.1 (congrArg Token.start heq)

/-! ## Scans -/

/-- But for doc comments and the reports of comments, a scan ends where a scan of the code tokens
does, once this one knows the line of the end. -/
theorem exists_undocumented_eq (g : Grammar) (source : List Char) : ∃ line,
    (Scan.run g (String.ofList source) (tokensOf g source) {}).undocumented =
      { Scan.run g (String.ofList source) (codeTokens (tokensOf g source)) {} with
        endLine := line } := by
  by_cases h : ∃ eof ∈ tokensOf g source, eof.kind = .endOfInput
  · obtain ⟨eof, hmem, heof⟩ := h
    obtain ⟨init, hts, hinit⟩ := Lexer.exists_concat_of_endOfInput g _ eof hmem heof
    have hts : tokensOf g source = init ++ [eof] := hts
    have hcode : codeTokens (init ++ [eof]) = codeTokens init := by
      rw [codeTokens, List.filter_append, List.filter_cons_of_neg (by simp [heof]), List.filter_nil,
        List.append_nil, codeTokens]
    have hrun : (Scan.run g (String.ofList source) init {}).undocumented =
        Scan.run g (String.ofList source) (codeTokens init) {} := by
      rw [Scan.run_undocumented hinit, Scan.undocumented_init]
    refine ⟨eof.line, ?_⟩
    rw [hts, Scan.run_append, Scan.run_cons, Scan.run_nil, Scan.feed_endOfInput heof, hcode, ← hrun]
    rfl
  · have hts : ∀ t ∈ tokensOf g source, t.kind ≠ .endOfInput := fun t ht hk => h ⟨t, ht, hk⟩
    exact ⟨_, by rw [Scan.run_undocumented hts, Scan.undocumented_init]⟩

/-- What a scan finds is found in the code tokens, apart from comments. -/
theorem scan_codeTokens (g : Grammar) (source : List Char) : ∃ line,
    let s := ({ Scan.run g (String.ofList source) (codeTokens (tokensOf g source)) {} with
      endLine := line } : Scan).finish
    (scan g source).symbols.map Symbol.declared = s.table.toList.map Symbol.declared ∧
    (scan g source).stats = s.tracker.stats ∧
    (scan g source).diagnostics.filter (·.kind ≠ .unterminatedComment) = s.diagnostics.toList := by
  obtain ⟨line, hline⟩ := exists_undocumented_eq g source
  refine ⟨line, ?_⟩
  have hscan : scan g source =
      (Scan.run g (String.ofList source) (tokensOf g source) {}).finish.result := scan_eq g source
  rw [hscan, ← hline, Scan.finish_undocumented]
  generalize (Scan.run g (String.ofList source) (tokensOf g source) {}).finish = e
  refine ⟨?_, rfl, ?_⟩
  · show e.table.toList.map Symbol.declared = _
    rw [Scan.undocumented, SymbolTable.toList, SymbolTable.toList, Array.toList_map, List.map_map]
    rfl
  · exact (Array.toList_filter ..).symm

/-- **Layout, comments and the contents of literals are without influence.** If the code tokens of
two sources agree in their gist, and neighbours touch in the one source where they do in the other,
then the scans find declarations of the same names, kinds, modifiers and paths, count the same
scopes and report the same kinds of diagnostics, comments without an end apart. -/
theorem scan_layout {g : Grammar} {source source' : List Char}
    (hgist : (codeTokens (tokensOf g source)).map Token.gist =
      (codeTokens (tokensOf g source')).map Token.gist)
    (htouching : touching (codeTokens (tokensOf g source)) =
      touching (codeTokens (tokensOf g source'))) :
    (scan g source).symbols.map Symbol.declared = (scan g source').symbols.map Symbol.declared ∧
    (scan g source).stats = (scan g source').stats ∧
    ((scan g source).diagnostics.filter (·.kind ≠ .unterminatedComment)).map (·.kind) =
      ((scan g source').diagnostics.filter (·.kind ≠ .unterminatedComment)).map (·.kind) := by
  obtain ⟨line, hsymbols, hstats, hdiagnostics⟩ := scan_codeTokens g source
  obtain ⟨line', hsymbols', hstats', hdiagnostics'⟩ := scan_codeTokens g source'
  have horder := codeTokens_inOrder g source
  have horder' := codeTokens_inOrder g source'
  rw [hsymbols, hsymbols', hstats, hstats', hdiagnostics, hdiagnostics']
  generalize codeTokens (tokensOf g source) = ts, codeTokens (tokensOf g source') = us at *
  -- the one list is the other one, relocated
  obtain ⟨ρ, rfl, hlines⟩ := Relocation.exists_of_gist_eq horder.nodup hgist
  have hadj : ρ.KeepsAdjacency ts := keepsAdjacency_of_touching horder horder' htouching
  have hinit : Scan.Follows ρ (String.ofList source) (String.ofList source') ts {} {} {} :=
    .init rfl rfl
  have hrun := (hinit.run (g := g) hadj (List.Sublist.refl ts)).endsAt line line'
  have hrun := hrun.finish (hlines line line')
  refine ⟨?_, ?_, ?_⟩
  · obtain ⟨retold, hretold, hrelated⟩ := hrun.symbols
    have hdeclared : ∀ a b : Symbol,
        a.Retold ρ (String.ofList source) (String.ofList source') ts b →
          b.declared = a.declared := fun a b hab => by
      rw [Symbol.declared, hab.name, hab.kind, hab.modifiers, hab.path, Symbol.declared]
    rw [hretold]
    exact (map_eq_of_forall₂ hdeclared hrelated).symm
  · rw [hrun.stats]
    simp [ScopeStats.join]
  · obtain ⟨retold, hretold, hrelated⟩ := hrun.diagnostics
    have hkind : ∀ a b : Diagnostic, a.Retold ρ b → b.kind = a.kind := by
      intro a b hab
      cases hab <;> rfl
    rw [hretold]
    exact (map_eq_of_forall₂ hkind hrelated).symm

/-- A class on one line, and the same over several lines with comments and other texts in it. -/
theorem scan_layout_of_class :
    let source := "class A \x7b int f(int x) \x7b return g(\"\x7d\", 1); \x7d \x7d".toList
    let source' :=
      "class A // \x7d\n\x7b int f(int x)/**/\n\x7b return g(\";\", 23); \x7d\n\x7d\n/*".toList
    (codeTokens (tokensOf (.ofProfile .java) source)).map Token.gist =
        (codeTokens (tokensOf (.ofProfile .java) source')).map Token.gist ∧
      touching (codeTokens (tokensOf (.ofProfile .java) source)) =
        touching (codeTokens (tokensOf (.ofProfile .java) source')) ∧
      (scan (.ofProfile .java) source).symbols.map Symbol.declared =
        [("f", .method, [], ["A"])] ∧
      (scan (.ofProfile .java) source').symbols.map Symbol.declared =
        [("f", .method, [], ["A"])] := by
  intro source source'
  have hgist : (codeTokens (tokensOf (.ofProfile .java) source)).map Token.gist =
      (codeTokens (tokensOf (.ofProfile .java) source')).map Token.gist := by decide +kernel
  have htouching : touching (codeTokens (tokensOf (.ofProfile .java) source)) =
      touching (codeTokens (tokensOf (.ofProfile .java) source')) := by decide +kernel
  have hsource : (scan (.ofProfile .java) source).symbols.map Symbol.declared =
      [("f", .method, [], ["A"])] := by decide +kernel
  exact ⟨hgist, htouching, hsource, (scan_layout hgist htouching).1.symm.trans hsource⟩

end DeclTags
