import Lexeme.Files.Source
import Lexeme.Grammar.Lexer
import Lexeme.Python.Lexer

/-!
# Engines

An engine cuts texts into tokens of the categories of its vocabulary. There is one built-in engine for each known
language, and one for every grammar.
-/

namespace Lexeme

/-- The languages with a built-in engine. -/
inductive Language where
  | python3
deriving DecidableEq, Repr

namespace Language

def id : Language → String
  | python3 => "python3"

def ofId? (id : String) : Option Language :=
  if id = python3.id then some python3 else none

end Language

structure Engine where
  name : String
  vocabulary : Vocabulary
  tokens : String → Except LexingError (List Token)

namespace Engine

/-- The built-in engine of a language. -/
def builtIn : Language → Engine
  | .python3 => ⟨Language.python3.id, Python.vocabulary, Python.tokens⟩

/-- The engine of a lexer that a grammar describes. -/
def ofLexer (lexer : Grammar.Lexer) : Engine := ⟨lexer.title, lexer.vocabulary, lexer.tokens⟩

/-- The engine of a grammar source. -/
def ofGrammar (source : String) : Logged (Except Grammar.Error Engine) := do
  match ← Grammar.lexerOfSource source with
  | .error e => return .error e
  | .ok lexer => return .ok (ofLexer lexer)

/-- Why there is no engine. -/
inductive Error where
  | unreadable (cause : Files.ReadError)
  | grammar (path : String) (cause : Grammar.Error)
  | lexing (cause : LexingError)
deriving DecidableEq, Repr

namespace Error

def message : Error → String
  | unreadable cause => s!"Cannot read grammar: {cause.message}"
  | grammar path cause => s!"Invalid grammar {path}: {cause.message}"
  | lexing cause => cause.message

def code : Error → Log.ErrorCode
  | unreadable cause => cause.code
  | grammar _ cause => cause.code
  | lexing cause => cause.code

end Error

/-- What a user asks for: a built-in engine, or the engine of a grammar file. -/
inductive Request where
  | builtIn (language : Language)
  | grammarFile (path : String)
deriving DecidableEq, Repr

namespace Request

/-- The request in a user's word: a language, and else a path. -/
def ofText (text : String) : Request :=
  (Language.ofId? text).elim (grammarFile text) builtIn

/-- The word for the request. -/
def text : Request → String
  | builtIn language => language.id
  | grammarFile path => path

end Request

/-- The engine of the grammar file at a path. -/
def ofFile (t : Files.Tree) (path : String) : Logged (Except Error Engine) := do
  match ← Files.readGrammar t path with
  | .error e => return .error (.unreadable e)
  | .ok source =>
    match ← ofGrammar source.content with
    | .error e =>
      Log.error e.code "Grammar cannot be compiled" [("path", path), ("error", e.message)]
      return .error (.grammar path e)
    | .ok engine => return .ok engine

/-- The engine that is asked for, before anything is said about it. -/
def find (t : Files.Tree) : Request → Logged (Except Error Engine)
  | .builtIn language => return .ok (builtIn language)
  | .grammarFile path => ofFile t path

/-- The engine that is asked for. -/
def load (t : Files.Tree) (request : Request) : Logged (Except Error Engine) := do
  match ← find t request with
  | .error e => return .error e
  | .ok engine =>
    Log.success .engineReady "Lexer engine ready"
      [("engine", engine.name), ("token_types", toString engine.vocabulary.maxCategory)]
    return .ok engine

end Engine

end Lexeme
