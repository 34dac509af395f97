import QueryGate.Dialect

namespace QueryGate

/-!
# Forbidden words

The verbs and functions that no statement may contain, per dialect. Verbs are forbidden as
unquoted words anywhere; functions only where they are called.
-/

namespace Dialect

/-- Verbs forbidden in every dialect: they change data, schema, permissions or session state,
run procedures, move data in bulk, or write a result into a table or file. -/
def commonVerbs : List String :=
  ["insert", "update", "delete", "merge", "create", "alter", "drop", "truncate", "grant",
    "revoke", "set", "reset", "show", "listen", "unlisten", "notify", "call", "execute", "copy",
    "vacuum", "analyze", "explain", "into"]

/-- Verbs forbidden in one dialect only. -/
def ownVerbs : Dialect → List String
  | postgresql =>
    ["refresh", "reindex", "cluster", "discard", "prepare", "deallocate", "checkpoint"]
  | mysql => ["rename", "lock", "unlock", "flush", "optimize", "handler"]
  | sqlite => ["attach", "detach", "pragma", "reindex"]

/-- Functions with effects beyond their result: on the session, on files, on locks, on other
servers, or by running text as SQL. -/
def forbiddenFunctions : Dialect → List String
  | postgresql =>
    ["set_config", "pg_sleep", "nextval", "setval", "pg_terminate_backend", "pg_cancel_backend",
      "pg_read_file", "pg_read_binary_file", "pg_ls_dir", "lo_import", "lo_export", "dblink",
      "dblink_exec", "query_to_xml", "query_to_xmlschema", "query_to_xml_and_xmlschema",
      "table_to_xml", "table_to_xmlschema", "table_to_xml_and_xmlschema", "cursor_to_xml",
      "cursor_to_xmlschema", "pg_advisory_lock", "pg_try_advisory_lock",
      "pg_advisory_lock_shared", "pg_try_advisory_lock_shared", "lo_get", "lo_unlink",
      "lo_create", "lo_creat", "pg_notify"]
  | mysql => ["sleep", "benchmark", "load_file", "get_lock"]
  | sqlite => ["load_extension"]

end Dialect

/-- What a guard forbids: the words of a dialect, and verbs of its own. -/
structure Vocabulary where
  dialect : Dialect
  /-- Further verbs, in lower case. -/
  extraVerbs : List String
deriving DecidableEq, Repr

namespace Vocabulary

/-- The words of a dialect and further verbs in any ASCII case. -/
def of (d : Dialect) (extra : List String) : Vocabulary := ⟨d, extra.map Text.asciiLower⟩

/-- All forbidden verbs, in lower case. -/
def verbs (v : Vocabulary) : List String :=
  Dialect.commonVerbs ++ v.dialect.ownVerbs ++ v.extraVerbs

/-- All forbidden functions, in lower case. -/
def functions (v : Vocabulary) : List String := v.dialect.forbiddenFunctions

/-- Whether a word, spelled in lower case, is a forbidden verb. -/
def forbidsVerb (v : Vocabulary) (word : String) : Bool := v.verbs.contains word

/-- Whether a name, spelled in lower case, is a forbidden function. -/
def forbidsFunction (v : Vocabulary) (name : String) : Bool := v.functions.contains name

end Vocabulary

/-- The words in order, each once. -/
def sortedWords (words : List String) : List String :=
  (words.mergeSort fun a b => !(b < a)).eraseReps

end QueryGate
