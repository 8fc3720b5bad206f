import NodeFlow.Json.Print
/-!
# Asking for a description

The prompt by which a model is asked to write a graph description: the request, an example to follow,
the kinds that are allowed, and the rules that a description has to keep.
-/

set_option autoImplicit false

namespace NodeFlow.Generate

/-- An object by its members. -/
def object (members : List (String × Value)) : Value := .ofMembers members

/-- The example that the prompt shows: three nodes in a row, of which the middle one calls a model. -/
def sample : Value :=
  let node (id kind : String) (more : List (String × Value)) : Value :=
    object ([("id", .str id), ("kind", .str kind)] ++ more)
  let edge (source target : String) : Value :=
    object [("from", .str source), ("to", .str target), ("label", .str target)]
  let save := object [("path", .str "summary"), ("value", .str "\x7b\x7bresult.text\x7d\x7d")]
  object [
    ("version", .str "pf-js/1.0"),
    ("entry", .str "input"),
    ("globals", object [("model", .str "gpt-4o-mini")]),
    ("nodes", .ofList [
      node "input" "static-data" [("post", object [("next", .str "summarize")])],
      node "summarize" "llm-call" [
        ("exec", object [("prompt", .str "Summarize: \x7b\x7bctx.text\x7d\x7d")]),
        ("post", object [
          ("outputs", object [("save", .ofList [save])]),
          ("next", .str "output")])],
      node "output" "static-data" []]),
    ("edges", .ofList [edge "input" "summarize", edge "summarize" "output"])]

/-- The line for hints, if there are any. -/
def hintLine (hints : String) : String :=
  if hints = "" then "" else "- " ++ hints ++ "\n"

/-- The prompt for a request, given the names of the allowed kinds. -/
def promptFor (kinds : List String) (request hints : String) : String :=
  "Create a flowspec graph description (JSON) for: \"" ++ request ++ "\"\n\n" ++
  "Use this EXACT structure:\n" ++ Json.renderIndented sample ++ "\n\n" ++
  "Rules:\n" ++
  "- \"version\" must be \"pf-js/1.0\".\n" ++
  "- Allowed node kinds: " ++ joinWith ", " kinds ++ ".\n" ++
  "- Every edge label must be the \"post.next\" of its \"from\" node, one of its\n" ++
  "  router case labels, or \"default\".\n" ++
  "- Routers declare \"exec\": \x7b\"cases\": [\x7b\"label\": ..., \"when\": \"<condition>\"\x7d]\x7d.\n" ++
  hintLine hints ++
  "\nReturn ONLY the JSON object, no other text."

end NodeFlow.Generate
