import Folio.Output.Stage

/-!
# Documents around previews

A preview of a component stands in a document of its own, and an index lists all
previews.  Both are complete pages that use the stylesheet of the space.
-/

namespace Folio

/-- The script that documents load. -/
def previewScript : String := "https://cdn.tailwindcss.com"

/-- The lines of a document up to its body. -/
def documentHead (title stylesheet : String) : List String :=
  ["<!doctype html>",
    "<html lang=\"en\">",
    "<head>",
    "  <meta charset=\"utf-8\"/>",
    "  <meta name=\"viewport\" content=\"width=device-width, initial-scale=1\"/>",
    "  <title>" ++ title ++ "</title>",
    "  <link rel=\"stylesheet\" href=\"" ++ stylesheet ++ "\"/>",
    "  <script src=\"" ++ previewScript ++ "\"></script>",
    "</head>",
    "<body class=\"sd-preview\">"]

/-- The last lines of a document. -/
def documentFoot : List String :=
  ["</body>", "</html>", ""]

/-- A document made of lines. -/
def joinLines (lines : List String) : List Char :=
  ("\n".intercalate lines).toList

/-- The preview of a component in a state, around the text that the component
gives. -/
def previewDocument (component state stylesheet : String) (body : List Char) : List Char :=
  joinLines (documentHead (component ++ " - " ++ state) stylesheet ++
    ["  <main class=\"p-6\">",
      "    <section class=\"max-w-5xl mx-auto\">",
      "      " ++ String.ofList body,
      "    </section>",
      "  </main>"] ++ documentFoot)

/-- The link to a preview in the index, after blank space for the line before. -/
def previewLinkLines (p : PreviewLink) : List String :=
  ["        ",
    "          <a class=\"px-2 py-1 rounded border hover:bg-muted\" href=\"./" ++ p.target ++
      "\">" ++ p.name ++ "</a>"]

/-- A component in the index. -/
def listingLines (c : ComponentListing) : List String :=
  ["    ",
    "      <li>",
    "        <div class=\"font-mono text-sm text-muted-foreground\">" ++ c.id ++ "</div>",
    "        <div class=\"flex flex-wrap gap-2 mt-1\">"] ++
  c.states.flatMap previewLinkLines ++
  ["        ", "        </div>", "      </li>"]

/-- The index of components. -/
def indexDocument (components : List ComponentListing) (stylesheet : String) : List Char :=
  joinLines (documentHead "Components" stylesheet ++
    ["  <main class=\"p-6 max-w-5xl mx-auto\">",
      "    <h1 class=\"text-2xl font-semibold mb-4\">Components</h1>",
      "    <ul class=\"space-y-3\">"] ++
    components.flatMap listingLines ++
    ["    ", "    </ul>", "  </main>"] ++ documentFoot)

end Folio
