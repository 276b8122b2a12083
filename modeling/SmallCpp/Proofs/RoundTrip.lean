import SmallCpp.Proofs.Except
import SmallCpp.Proofs.Printer.Items
import SmallCpp.Proofs.Printer.Tokens
import SmallCpp.Proofs.Spelling
import SmallCpp.Proofs.WellFormed.Parsed

/-!
# Printing undoes parsing

A program is rendered as the spellings of its printed tokens, a space after each. Whatever source a
program was read from, its rendering is read again as the same program up to spans: the parts of a
program that was read are well formed and its names and literals can be spelled, so the rendering is
scanned as the printed tokens, and these are read back.
-/

namespace SmallCpp

/-- The text of tokens, with a space after each. -/
def rendered (ks : List TokenKind) : List Char :=
  ks.flatMap fun k => k.spelling ++ [' ']

/-- The rendering of tokens that can be spelled is scanned as these tokens. -/
theorem spells_rendered {ks : List TokenKind} (h : ∀ k ∈ ks, k.Spellable) :
    Spells (rendered ks) ks := by
  induction ks with
  | nil => exact .nil
  | cons k ks ih =>
    obtain ⟨hk, hks⟩ := List.forall_mem_cons.mp h
    have hsplit : rendered (k :: ks) = k.spelling ++ ' ' :: rendered ks := by
      rw [rendered, List.flatMap_cons, List.append_assoc, List.singleton_append]
      rfl
    have hspace : Piece.Separated (' ' :: rendered ks) := by
      rintro _ ⟨⟩
      rfl
    rw [hsplit]
    exact .token hk hspace (.blank rfl (ih hks))

namespace Program

/-- The source text of a program. -/
def render (p : Program) : String :=
  String.ofList (rendered p.word)

/-- The tokens of a program that was read from a source can be spelled. -/
theorem spellable_of_parse {source : String} {p : Program} (h : parse source = .ok p) :
    p.WellFormed (fun k => k ≠ .eof → k.Spellable) ∧ ∀ k ∈ p.word, k.Spellable := by
  rw [parse] at h
  cases hscan : scan source with
  | error errors =>
    rw [hscan] at h
    cases h
  | ok tokens =>
    rw [hscan] at h
    have hwf : p.WellFormed (fun k => k ≠ .eof → k.Spellable) :=
      wellFormed_of_ofTokens (spellable_of_scan hscan) h
    have hprintable : Printable (fun k => k ≠ .eof → k.Spellable) TokenKind.Spellable :=
      ⟨fun _ hk hne => hk hne, fun _ => trivial, fun _ => trivial⟩
    exact ⟨hwf, hwf.forall_word hprintable⟩

/-- A program that was read from a source is rendered as a text that is read as the same program,
up to spans. -/
theorem parse_render {source : String} {p : Program} (h : parse source = .ok p) :
    ∃ q, parse p.render = .ok q ∧ q.bare = p.bare := by
  obtain ⟨hwf, hword⟩ := spellable_of_parse h
  have hspells : Spells p.render.toList p.word := by
    rw [render, String.toList_ofList]
    exact spells_rendered hword
  obtain ⟨tokens, hscan, hkinds⟩ := hspells.scan
  obtain ⟨q, hq, hbare⟩ := ofTokens_word hwf hkinds
  refine ⟨q, ?_, hbare⟩
  rw [parse, hscan]
  exact hq

end Program

/-- A source with each sort of item and declarator, and with tokens that the printer leaves out. -/
def cellSource : String :=
  "class C { public: int a[2]; ; }; int g[2] = {1, 2,}; void f(C &c, int (&r)[2]);
  int main(void) { C c; if (g[0]) if (g[1]) f(c, g); else c.a[0] -= -1; return g[1]; }"

/-- What is printed of `cellSource` is read back as it was. -/
theorem parse_render_cellSource : ∃ p, Program.parse cellSource = .ok p ∧
    ∃ q, Program.parse p.render = .ok q ∧ q.bare = p.bare := by
  obtain ⟨p, hp⟩ := Except.exists_of_isOk (r := Program.parse cellSource) (by decide +kernel)
  exact ⟨p, hp, Program.parse_render hp⟩

end SmallCpp
