import Soul.Token

/-!
# Operators and marks as a tree

The operators and marks are told apart character by character. The first
character says where to begin, and each character behind it that still makes
a longer symbol leads one step down a tree (`SymbolTree.walk`). The first
character that does not is left alone, and the way is never gone back.
-/

namespace Soul

/-- A symbol, and by the next character the symbols that go on from it. -/
inductive SymbolTree where
  | node (lexeme : Lexeme) (branches : List (Char × SymbolTree))

namespace SymbolTree

/-- The symbol that ends here. -/
def lexeme : SymbolTree → Lexeme
  | node lexeme _ => lexeme

/-- The symbols that go on from here. -/
def branches : SymbolTree → List (Char × SymbolTree)
  | node _ branches => branches

/-- A symbol from which none goes on. -/
def leaf (lexeme : Lexeme) : SymbolTree := node lexeme []

/-- Goes down the tree as far as the text leads, and gives the symbol found there
    and the number of characters passed. -/
def walk (t : SymbolTree) : List Char → Lexeme × Nat
  | [] => (t.lexeme, 0)
  | c :: rest =>
    match t.branches.lookup c with
    | some next => ((next.walk rest).1, (next.walk rest).2 + 1)
    | none => (t.lexeme, 0)

/-- The symbols of one character from which none goes on. -/
def singles : List (Char × SymbolTree) :=
  [('(', leaf (.mark .leftParen)), (')', leaf (.mark .rightParen)),
   ('\x7b', leaf (.mark .leftBrace)), ('\x7d', leaf (.mark .rightBrace)),
   ('[', leaf (.mark .leftBracket)), (']', leaf (.mark .rightBracket)),
   (',', leaf (.mark .comma)), (':', leaf (.mark .colon)), ('#', leaf (.mark .pound)),
   ('@', leaf (.mark .atSign)), ('$', leaf (.mark .dollar)), ('\'', leaf (.mark .apostrophe))]

/-- The trees of all symbols, by the first character. -/
def starts : List (Char × SymbolTree) :=
  singles ++
  [('!', node (.mark .bang) [('=', leaf (.operator .ne))]),
   ('-', node (.operator .minus)
     [('=', leaf (.mark .minusAssign)), ('-', leaf (.mark .decrement)),
      ('>', leaf (.mark .arrow))]),
   ('+', node (.operator .plus)
     [('=', leaf (.mark .plusAssign)), ('+', leaf (.mark .increment))]),
   ('/', node (.operator .slash) [('=', leaf (.mark .slashAssign))]),
   ('*', node (.operator .star)
     [('=', leaf (.mark .starAssign)),
      ('*', node (.operator .power) [('=', leaf (.mark .powerAssign))])]),
   ('%', node (.operator .percent) [('=', leaf (.mark .percentAssign))]),
   ('.', node (.operator .dot) [('.', leaf (.operator .range))]),
   ('&', node (.operator .bitAnd)
     [('=', leaf (.mark .andAssign)), ('&', leaf (.operator .and))]),
   ('|', node (.operator .bitOr)
     [('=', leaf (.mark .orAssign)), ('|', leaf (.operator .or)), ('>', leaf (.operator .shrx))]),
   ('~', node (.mark .tilde) [('=', leaf (.mark .tildeAssign))]),
   ('^', node (.mark .caret) [('=', leaf (.mark .caretAssign))]),
   ('<', node (.operator .lt)
     [('=', leaf (.operator .le)),
      ('|', node (.operator .shlx) [('=', leaf (.mark .shlxAssign))]),
      ('<', node (.operator .shl) [('=', leaf (.mark .shlAssign))])]),
   ('>', node (.operator .gt) [('=', leaf (.operator .ge)), ('>', leaf (.operator .shr))]),
   ('=', node (.operator .assign) [('=', leaf (.operator .eq))])]

end SymbolTree

end Soul
