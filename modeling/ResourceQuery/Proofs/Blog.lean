import ResourceQuery.Compile.Request

/-!
# Blog — a small model

Articles with an author, comments, tags, photos and a polymorphic subject; people live in a country
and have their names in snake case.  Closed instances of the theory are taken from here.
-/

namespace ResourceQuery.Blog

def articles : ResourceType where
  name      := "articles"
  table     := "articles"
  relations :=
    [("author", { kind := .belongsTo, target := "people", foreignKey := some "author_id" }),
     ("comments", { kind := .hasMany, target := "comments", foreignKey := some "article_id" }),
     ("tags", .belongsToMany "tags"),
     ("photos", .morphMany "photos" "imageable"),
     ("subject", .morphTo "subject")]

def people : ResourceType where
  name      := "people"
  table     := "people"
  naming    := .snakeCase
  relations :=
    [("country", { kind := .belongsTo, target := "countries", foreignKey := some "country_id" })]

def countries : ResourceType where
  name  := "countries"
  table := "countries"

def comments : ResourceType where
  name      := "comments"
  table     := "comments"
  relations :=
    [("author", { kind := .belongsTo, target := "people", foreignKey := some "author_id" }),
     ("commentable", .morphTo "commentable")]

def tags : ResourceType where
  name  := "tags"
  table := "tags"

def photos : ResourceType where
  name  := "photos"
  table := "photos"

/-- The types of the blog. -/
def registry : Registry :=
  .ofList [articles, people, countries, comments, tags, photos]

/-- The relation from articles to their authors, as a path follows it. -/
def authorHop : Hop :=
  ⟨"author", { kind := .belongsTo, target := "people", foreignKey := some "author_id" }, articles,
    some people⟩

/-- The context of requests for articles. -/
def context (strict : Bool) : Context :=
  ⟨registry, articles, "articles", strict⟩

/-- The compiler of requests to the blog. -/
def compiler : Compiler where
  registry := registry

/-- A request for the articles whose author has the first name `x`, with a field of the author. -/
def authorField (field : String) : Request where
  base   := "articles"
  params :=
    { filter := ⟨[.equality "author.firstName" (.single "x")]⟩, fields := [("author", [field])] }

/-- A request for the articles whose author has the first name `x`, with a field of the articles. -/
def articleField (field : String) : Request where
  base   := "articles"
  params :=
    { filter := ⟨[.equality "author.firstName" (.single "x")]⟩, fields := [("articles", [field])] }

/-- A request for the articles with the value `x` under a key. -/
def filtered (key : String) : Request where
  base   := "articles"
  params := { filter := ⟨[.equality key (.single "x")]⟩ }

/-- A request for the articles in given places, or in a place with an `x`. -/
def inPlace (value : FilterValue) : Request where
  base   := "articles"
  params :=
    { filter := ⟨[.equality "meta:zip" value, .typed .like [("meta:zip", .single "x")]]⟩ }

/-- A request for the titles of the articles in a place, by author and with their comments. -/
def placedArticles : Request where
  base   := "articles"
  params :=
    { filter   := ⟨[.equality "meta:zip" (.single "x")]⟩
      sort     := ["author.lastName"]
      includes := ["comments"]
      fields   := [("articles", ["title", "meta:zip"])] }

/-- A request for all articles with included relations and one fieldset. -/
def included (includes : List String) (key : String) (fields : List String) : Request where
  base   := "articles"
  params := { includes, fields := [(key, fields)] }

/-- A request for all articles in an order, with one field of the articles. -/
def sortedArticles (entry field : String) : Request where
  base   := "articles"
  params := { sort := [entry], fields := [("articles", [field])] }

/-- A request for a page of articles by title, with quotes and placeholders wherever there is
text. -/
def quotedRequest : Request where
  base       := "articles"
  tableAlias := some "a'?$1"
  params     :=
    { filter := ⟨[.equality "the\"title" (.single "'; ?")]⟩, page := some (.window 5 10) }

/-- The compiler of requests to the blog in a schema with a quote in its name. -/
def quotedCompiler : Compiler where
  registry := registry
  config   := { schema := some "s\"" }

/-- The compiler of requests to the blog that join nothing. -/
def joinlessCompiler : Compiler where
  registry := registry
  config   := { maxJoins := 0 }

/-- The compiler of requests to the blog that allows one predicate. -/
def narrowCompiler : Compiler where
  registry := registry
  config   := { maxConditions := 1 }

/-- A request for the articles whose title contains one of some texts. -/
def titleLike (texts : String) : Request where
  base   := "articles"
  params := { filter := ⟨[.typed .like [("title", .single texts)]]⟩ }

/-- The paths that the keys of a filter on the names of authors, of a grouping by the texts of
comments and of an order by the authors' countries follow. -/
def paths : List (List String) :=
  [["author"], ["comments"], ["author", "country"]]

end ResourceQuery.Blog
