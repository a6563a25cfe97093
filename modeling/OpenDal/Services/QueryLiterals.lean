import OpenDal.QuotedText
import OpenDal.Raw.MixedPart
import OpenDal.Services.Gdrive

/-!
# Paths in queries

NebulaGraph and Google Drive find an object by a query with its path in
quotes.  Both put backslashes before the quotes of the path, and neither puts
one before its backslashes.  NebulaGraph does so for both kinds of quotes, and
of these the double one would not end the literal.
-/

namespace OpenDal

open Path

/-- `str::replace` of one character. -/
def replaceChar (c : Char) (new text : Text) : Text :=
  text.flatMap (fun other => if other = c then new else [other])

/-! ## NebulaGraph -/

/-- The configuration that the statements are built from. -/
structure NebulaAdapter where
  tag : Text
  keyField : Text
  valueField : Text

/-- A statement with one path in quotes. -/
structure Statement where
  before : Text
  literal : Text
  after : Text

def Statement.text (statement : Statement) : Text :=
  statement.before ++ '\'' :: (statement.literal ++ '\'' :: statement.after)

namespace NebulaAdapter

variable (adapter : NebulaAdapter)

def escapePath (path : Path) : Text :=
  replaceChar '"' "\\\"".toList (replaceChar '\'' "\\'".toList path)

/-- `LOOKUP ON {tag} WHERE {tag}.{key_field}`. -/
def lookup : Text :=
  "LOOKUP ON ".toList ++ adapter.tag ++ " WHERE ".toList ++ adapter.tag ++
    ['.'] ++ adapter.keyField

/-- ` YIELD properties(vertex).{field} AS {field};`. -/
def yields (field : Text) : Text :=
  " YIELD properties(vertex).".toList ++ field ++ " AS ".toList ++ field ++
    [';']

def get (path : Path) : List Statement :=
  [{ before := adapter.lookup ++ " == ".toList
     literal := escapePath path
     after := yields adapter.valueField }]

def delete (path : Path) : List Statement :=
  [{ before := adapter.lookup ++ " == ".toList
     literal := escapePath path
     after := " YIELD id(vertex) AS id | DELETE VERTEX $-.id;".toList }]

/-- The id is a number, and the file is in base64. -/
def set (path : Path) (snowflakeId : Nat) (file : Text) : List Statement :=
  adapter.delete path ++
    [{ before := "INSERT VERTEX ".toList ++ adapter.tag ++ " VALUES ".toList ++
         (toString snowflakeId).toList ++ ":(".toList
       literal := escapePath path
       after := ", '".toList ++ file ++ "');".toList }]

def scan (path : Path) : List Statement :=
  [{ before := adapter.lookup ++ " STARTS WITH ".toList
     literal := escapePath path
     after := yields adapter.keyField }]

/-- The statements of all operations on a path. -/
def statements (path : Path) (snowflakeId : Nat) (file : Text) :
    List Statement :=
  adapter.get path ++ adapter.set path snowflakeId file ++
    adapter.delete path ++ adapter.scan path

end NebulaAdapter

/-! ## Google Drive -/

namespace GdrivePathQuery

/-- What is asked of a file besides its name. -/
def conditions (parentId : Text) (name : Path) : List Text :=
  ["'".toList ++ parentId ++ "' in parents".toList, "trashed = false".toList] ++
    if endsWithSlash name then
      ["mimeType = 'application/vnd.google-apps.folder'".toList]
    else
      []

/-- The search query, before it is encoded for the URL. -/
def query (parentId : Text) (name : Path) : Text :=
  " and ".toList.intercalate
    (("name = '".toList ++ Gdrive.escapeName name ++ "'".toList) ::
      conditions parentId name)

def statement (parentId : Text) (name : Path) : Statement where
  before := "name = ".toList
  literal := Gdrive.escapeName name
  after := (conditions parentId name).flatMap (" and ".toList ++ ·)

theorem intercalate_cons (first : Text) (rest : List Text) :
    " and ".toList.intercalate (first :: rest) =
      first ++ rest.flatMap (" and ".toList ++ ·) := by
  induction rest generalizing first with
  | nil => simp [List.intercalate]
  | cons second rest induction =>
      have step : " and ".toList.intercalate (first :: second :: rest) =
          first ++ (" and ".toList ++
            " and ".toList.intercalate (second :: rest)) := by
        simp [List.intercalate]
      rw [step, induction second, List.flatMap_cons, List.append_assoc]

theorem query_eq (parentId : Text) (name : Path) :
    query parentId name = (statement parentId name).text := by
  have before : "name = '".toList = "name = ".toList ++ ['\''] := rfl
  have closing : "'".toList = ['\''] := rfl
  unfold query Statement.text statement
  rw [intercalate_cons, before, closing]
  -- A string would be taken apart by every lemma about `++`.
  generalize "name = ".toList = start
  simp only [List.append_assoc, List.cons_append, List.nil_append]

end GdrivePathQuery

/-! ## Reading the queries -/

/-- NebulaGraph escapes both kinds of quotes. -/
def nebulaQuoting : Quoting Char where
  escape := '\\'
  quote := '\''
  special := fun c => c == '\'' || c == '"'
  special_escape := rfl
  special_quote := rfl

def gdriveQuoting : Quoting Char where
  escape := '\\'
  quote := '\''
  special := fun c => c == '\''
  special_escape := rfl
  special_quote := rfl

/-- A lexer in which a backslash escapes the next character finds the path
behind the quote, and behind the path the rest of the query. -/
def ReadsBack (query before after : Text) (path : Path) : Prop :=
  ∃ body, query = before ++ '\'' :: body ∧
    readLiteral '\\' '\'' body = some (path, after)

/-- Every backslash of the path stands before a double quote. -/
def BackslashesQuoted (path : Path) : Prop :=
  ∀ before behind, path = before ++ '\\' :: behind → behind.head? = some '"'

theorem escapePath_eq (path : Path) :
    NebulaAdapter.escapePath path = nebulaQuoting.escapeText path := by
  unfold NebulaAdapter.escapePath replaceChar Quoting.escapeText
  rw [List.flatMap_assoc]
  congr 1
  funext c
  by_cases single : c = '\''
  · rw [single]
    rfl
  · by_cases double : c = '"'
    · rw [double]
      rfl
    · simp [nebulaQuoting, single, double]

theorem escapeName_eq (name : Path) :
    Gdrive.escapeName name = gdriveQuoting.escapeText name := by
  unfold Gdrive.escapeName Quoting.escapeText
  congr 1
  funext c
  by_cases quote : c = '\''
  · rw [quote]
    rfl
  · simp [gdriveQuoting, quote]

theorem Statement.readsBack_iff (statement : Statement) (quoting : Quoting Char)
    (escape : quoting.escape = '\\') (quote : quoting.quote = '\'')
    {path : Path} (literal : statement.literal = quoting.escapeText path) :
    ReadsBack statement.text statement.before statement.after path ↔
      quoting.HarmlessEscapes path := by
  have written : quoting.read (quoting.written path statement.after) =
      some (path, statement.after) ↔ quoting.HarmlessEscapes path :=
    Quoting.read_written_iff
  rw [← written, Quoting.read, escape, quote]
  have body : statement.text =
      statement.before ++ '\'' :: quoting.written path statement.after := by
    rw [Statement.text, literal, Quoting.written, quote]
  constructor
  · intro reads
    obtain ⟨other, split, found⟩ := reads
    rw [body, List.append_right_inj] at split
    rw [(List.cons.inj split).2]
    exact found
  · intro found
    exact ⟨_, body, found⟩

theorem nebula_harmless (behind : Text) :
    nebulaQuoting.Harmless behind ↔ behind.head? = some '"' := by
  cases behind with
  | nil =>
      constructor
      · intro harmless
        exact harmless.elim
      · intro head
        cases head
  | cons next rest =>
      have special : nebulaQuoting.special next = true ↔
          next = '\'' ∨ next = '"' := by
        simp [nebulaQuoting]
      rw [Quoting.Harmless, special, List.head?_cons, Option.some.injEq]
      constructor
      · intro harmless
        exact harmless.1.resolve_left harmless.2
      · intro double
        refine ⟨.inr double, ?_⟩
        rw [double]
        decide

theorem backslashesQuoted_iff (path : Path) :
    nebulaQuoting.HarmlessEscapes path ↔ BackslashesQuoted path := by
  constructor
  · intro harmless before behind split
    exact (nebula_harmless behind).mp (harmless before behind split)
  · intro quoted before behind split
    exact (nebula_harmless behind).mpr (quoted before behind split)

namespace NebulaAdapter

variable {adapter : NebulaAdapter} {path : Path} {statement : Statement}

theorem get_literal (member : statement ∈ adapter.get path) :
    statement.literal = escapePath path := by
  rw [List.mem_singleton.mp member]

theorem delete_literal (member : statement ∈ adapter.delete path) :
    statement.literal = escapePath path := by
  rw [List.mem_singleton.mp member]

theorem set_literal {snowflakeId : Nat} {file : Text}
    (member : statement ∈ adapter.set path snowflakeId file) :
    statement.literal = escapePath path := by
  rcases List.mem_append.mp member with deleted | inserted
  · exact delete_literal deleted
  · rw [List.mem_singleton.mp inserted]

theorem scan_literal (member : statement ∈ adapter.scan path) :
    statement.literal = escapePath path := by
  rw [List.mem_singleton.mp member]

theorem statement_literal {snowflakeId : Nat} {file : Text}
    (member : statement ∈ adapter.statements path snowflakeId file) :
    statement.literal = escapePath path := by
  unfold statements at member
  rcases List.mem_append.mp member with earlier | scanned
  · rcases List.mem_append.mp earlier with earlier | deleted
    · rcases List.mem_append.mp earlier with got | stored
      · exact get_literal got
      · exact set_literal stored
    · exact delete_literal deleted
  · exact scan_literal scanned

end NebulaAdapter

/-- NebulaGraph reads a path back if every backslash in it stands before a
double quote, and Google Drive a name without backslashes; any other path
changes the query. -/
theorem query_literals_iff (adapter : NebulaAdapter) (snowflakeId : Nat)
    (file parentId : Text) (path : Path) :
    (∀ statement ∈ adapter.statements path snowflakeId file,
      (ReadsBack statement.text statement.before statement.after path ↔
        BackslashesQuoted path)) ∧
    (ReadsBack (GdrivePathQuery.query parentId path) "name = ".toList
        (GdrivePathQuery.statement parentId path).after path ↔
      '\\' ∉ path) := by
  constructor
  · intro statement member
    have literal : statement.literal = nebulaQuoting.escapeText path := by
      rw [NebulaAdapter.statement_literal member, escapePath_eq]
    rw [← backslashesQuoted_iff]
    exact statement.readsBack_iff nebulaQuoting rfl rfl literal
  · rw [GdrivePathQuery.query_eq]
    have plain : gdriveQuoting.HarmlessEscapes path ↔ '\\' ∉ path := by
      apply Quoting.harmlessEscapes_iff
      intro c isSpecial
      exact eq_of_beq isSpecial
    rw [← plain]
    exact (GdrivePathQuery.statement parentId path).readsBack_iff gdriveQuoting
      rfl rfl (escapeName_eq path)

/-- A backslash before a quote leaves the literal open to what follows. -/
theorem query_literals_broken :
    ¬ ∀ (adapter : NebulaAdapter) (snowflakeId : Nat) (file parentId : Text)
      (path : Path),
      (∀ statement ∈ adapter.statements path snowflakeId file,
        ReadsBack statement.text statement.before statement.after path) ∧
      ReadsBack (GdrivePathQuery.query parentId path) "name = ".toList
        (GdrivePathQuery.statement parentId path).after path := by
  intro all
  obtain ⟨reads, -⟩ := all ⟨[], [], []⟩ 0 [] [] ['a', '\\', '\'', 'b']
  have harmless := (Statement.readsBack_iff _ nebulaQuoting rfl rfl
    (escapePath_eq _)).mp (reads _ List.mem_cons_self)
  have head := (nebula_harmless ['\'', 'b']).mp (harmless ['a'] _ rfl)
  exact absurd head (by decide)

end OpenDal
