import ApiTree.Schema.Check

/-!
# The schema of OpenAPI documents

The schema that a document of version 3.0 of the OpenAPI format must satisfy, with the schemas of
its parts by name. The keywords of a schema stand in the order in which violations are told.
-/

set_option autoImplicit false

namespace ApiTree.OpenApi

/-- A text. -/
def text : Schema := [.kind .string]

/-- A truth value. -/
def flag : Schema := [.kind .boolean]

/-- A number. -/
def number : Schema := [.kind .number]

/-- An integer that is not negative. -/
def count : Schema := [.kind .integer, .minimum 0 false]

/-- A list of texts. -/
def texts : Schema := [.kind .array, .items text]

/-- One of the given texts. -/
def oneText (names : List String) : Schema := [.kind .string, .values (names.map .str)]

/-- One of the given values. -/
def only (allowed : List Value) : Schema := [.values allowed]

/-- The schema of a name. -/
def named (name : String) : Schema := [.ref name]

/-- What the schema of a name accepts, or a reference to it. -/
def orReference (name : String) : Schema := [.oneOf [named name, named "Reference"]]

/-- A list of values. -/
def listOf (schema : Schema) : Schema := [.kind .array, .items schema]

/-- A mapping with any keys. -/
def mapOf (schema : Schema) : Schema := [.kind .object, .others schema]

/-- A mapping from names of components. -/
def componentsOf (schema : Schema) : Schema :=
  [.kind .object, .patterns [(.componentName, schema)]]

/-- A mapping that has the given keys, whatever else it has. -/
def needs (names : List String) : Schema := [.required names]

/-- A mapping with the given properties and extensions, the first ones being required. -/
def object (required : List String) (properties : List (String × Schema)) : Schema :=
  .kind .object :: ((if required.isEmpty then [] else [.required required]) ++
    [.properties properties, .patterns [(.extension, [])], .closed])

/-- A reference in place of what it refers to. -/
def referenceObject : Schema :=
  [.kind .object, .required ["$ref"], .patterns [(.referenceKey, text)]]

/-- What the API is. -/
def info : Schema :=
  object ["title", "version"]
    [("title", text), ("description", text), ("termsOfService", text),
     ("contact", named "Contact"), ("license", named "License"), ("version", text)]

/-- Whom to ask about the API. -/
def contact : Schema :=
  object [] [("name", text), ("url", text), ("email", text)]

/-- The terms under which the API is offered. -/
def license : Schema :=
  object ["name"] [("name", text), ("url", text)]

/-- A server of the API. -/
def server : Schema :=
  object ["url"]
    [("url", text), ("description", text), ("variables", mapOf (named "ServerVariable"))]

/-- A variable in the address of a server. -/
def serverVariable : Schema :=
  object ["default"] [("enum", texts), ("default", text), ("description", text)]

/-- Named parts that the document refers to. -/
def components : Schema :=
  object []
    [("schemas", componentsOf (orReference "Schema")),
     ("responses", componentsOf (orReference "Response")),
     ("parameters", componentsOf (orReference "Parameter")),
     ("examples", componentsOf (orReference "Example")),
     ("requestBodies", componentsOf (orReference "RequestBody")),
     ("headers", componentsOf (orReference "Header")),
     ("securitySchemes", componentsOf (orReference "SecurityScheme")),
     ("links", componentsOf (orReference "Link")),
     ("callbacks", componentsOf (orReference "Callback"))]

/-- A schema of the data that the API takes or gives. -/
def schemaObject : Schema :=
  object []
    [("title", text), ("multipleOf", [.kind .number, .minimum 0 true]), ("maximum", number),
     ("exclusiveMaximum", flag), ("minimum", number), ("exclusiveMinimum", flag),
     ("maxLength", count), ("minLength", count), ("pattern", text), ("maxItems", count),
     ("minItems", count), ("uniqueItems", flag), ("maxProperties", count),
     ("minProperties", count),
     ("required", [.kind .array, .items text, .minItems 1, .uniqueItems]),
     ("enum", [.kind .array, .items [], .minItems 1]),
     ("type", oneText ["array", "boolean", "integer", "number", "object", "string"]),
     ("not", orReference "Schema"), ("allOf", listOf (orReference "Schema")),
     ("oneOf", listOf (orReference "Schema")), ("anyOf", listOf (orReference "Schema")),
     ("items", orReference "Schema"), ("properties", mapOf (orReference "Schema")),
     ("additionalProperties", [.oneOf [named "Schema", named "Reference", flag]]),
     ("description", text), ("format", text), ("default", []), ("nullable", flag),
     ("discriminator", named "Discriminator"), ("readOnly", flag), ("writeOnly", flag),
     ("example", []), ("externalDocs", named "ExternalDocumentation"), ("deprecated", flag),
     ("xml", named "XML")]

/-- How the schemas of a choice are told apart. -/
def discriminator : Schema :=
  [.kind .object, .required ["propertyName"],
   .properties [("propertyName", text), ("mapping", mapOf text)]]

/-- How a value is written in XML. -/
def xml : Schema :=
  object []
    [("name", text), ("namespace", text), ("prefix", text), ("attribute", flag),
     ("wrapped", flag)]

/-- A response of an operation. -/
def response : Schema :=
  object ["description"]
    [("description", text), ("headers", mapOf (orReference "Header")),
     ("content", mapOf (named "MediaType")), ("links", mapOf (orReference "Link"))]

/-- A body under one media type. -/
def mediaType : Schema :=
  object []
      [("schema", orReference "Schema"), ("example", []),
       ("examples", mapOf (orReference "Example")), ("encoding", mapOf (named "Encoding"))] ++
    [.allOf [named "ExampleXORExamples"]]

/-- An example value. -/
def exampleObject : Schema :=
  object [] [("summary", text), ("description", text), ("value", []), ("externalValue", text)]

/-- A header of a response or of a part of a body. -/
def header : Schema :=
  object []
      [("description", text), ("required", flag), ("deprecated", flag), ("allowEmptyValue", flag),
       ("style", oneText ["simple"]), ("explode", flag), ("allowReserved", flag),
       ("schema", orReference "Schema"),
       ("content",
        [.kind .object, .others (named "MediaType"), .minProperties 1, .maxProperties 1]),
       ("example", []), ("examples", mapOf (orReference "Example"))] ++
    [.allOf [named "ExampleXORExamples", named "SchemaXORContent"]]

/-- The paths of the API. -/
def paths : Schema :=
  [.kind .object, .patterns [(.rooted, named "PathItem"), (.extension, [])], .closed]

/-- The operations of a path. -/
def pathItem : Schema :=
  [.kind .object,
   .properties
     [("$ref", text), ("summary", text), ("description", text),
      ("servers", listOf (named "Server")),
      ("parameters", [.kind .array, .items (orReference "Parameter"), .uniqueItems])],
   .patterns [(.method, named "Operation"), (.extension, [])], .closed]

/-- An operation. -/
def operation : Schema :=
  object ["responses"]
    [("tags", texts), ("summary", text), ("description", text),
     ("externalDocs", named "ExternalDocumentation"), ("operationId", text),
     ("parameters", [.kind .array, .items (orReference "Parameter"), .uniqueItems]),
     ("requestBody", orReference "RequestBody"), ("responses", named "Responses"),
     ("callbacks", mapOf (orReference "Callback")), ("deprecated", flag),
     ("security", listOf (named "SecurityRequirement")), ("servers", listOf (named "Server"))]

/-- The responses of an operation by status. -/
def responses : Schema :=
  [.kind .object, .properties [("default", orReference "Response")],
   .patterns [(.status, orReference "Response"), (.extension, [])], .minProperties 1, .closed]

/-- The schemes and scopes that a call needs. -/
def securityRequirement : Schema :=
  mapOf texts

/-- A tag of operations. -/
def tag : Schema :=
  object ["name"]
    [("name", text), ("description", text), ("externalDocs", named "ExternalDocumentation")]

/-- A text about the API that stands elsewhere. -/
def externalDocumentation : Schema :=
  object ["url"] [("description", text), ("url", text)]

/-- One example or several named ones, not both. -/
def singleExample : Schema :=
  [.never (needs ["example", "examples"])]

/-- Either a schema or content. -/
def schemaOrContent : Schema :=
  [.never (needs ["schema", "content"]),
   .oneOf
     [needs ["schema"],
      [.required ["content"],
       .allOf
         [[.never (needs ["style"])], [.never (needs ["explode"])],
          [.never (needs ["allowReserved"])], [.never (needs ["example"])],
          [.never (needs ["examples"])]]]]]

/-- A parameter of an operation. -/
def parameter : Schema :=
  object []
      [("name", text), ("in", text), ("description", text), ("required", flag),
       ("deprecated", flag), ("allowEmptyValue", flag), ("style", text), ("explode", flag),
       ("allowReserved", flag), ("schema", orReference "Schema"),
       ("content",
        [.kind .object, .others (named "MediaType"), .minProperties 1, .maxProperties 1]),
       ("example", []), ("examples", mapOf (orReference "Example"))] ++
    [.required ["name", "in"],
     .allOf [named "ExampleXORExamples", named "SchemaXORContent", named "ParameterLocation"]]

/-- The styles that a parameter can have where it stands. -/
def parameterLocation : Schema :=
  [.oneOf
     [[.required ["required"],
       .properties
         [("in", only [.str "path"]),
          ("style", only [.str "matrix", .str "label", .str "simple"]),
          ("required", only [.bool true])]],
      [.properties
         [("in", only [.str "query"]),
          ("style",
           only [.str "form", .str "spaceDelimited", .str "pipeDelimited", .str "deepObject"])]],
      [.properties [("in", only [.str "header"]), ("style", only [.str "simple"])]],
      [.properties [("in", only [.str "cookie"]), ("style", only [.str "form"])]]]]

/-- The body of a request. -/
def requestBody : Schema :=
  object ["content"]
    [("description", text), ("content", mapOf (named "MediaType")), ("required", flag)]

/-- A way to identify a caller. -/
def securityScheme : Schema :=
  [.oneOf
     [named "APIKeySecurityScheme", named "HTTPSecurityScheme", named "OAuth2SecurityScheme",
      named "OpenIdConnectSecurityScheme"]]

/-- A key that the caller sends. -/
def apiKeyScheme : Schema :=
  object ["type", "name", "in"]
    [("type", oneText ["apiKey"]), ("name", text), ("in", oneText ["header", "query", "cookie"]),
     ("description", text)]

/-- A scheme of HTTP authentication; only bearer tokens have a format. -/
def httpScheme : Schema :=
  object ["scheme", "type"]
      [("scheme", text), ("bearerFormat", text), ("description", text),
       ("type", oneText ["http"])] ++
    [.oneOf
       [[.properties [("scheme", [.kind .string, .pattern .bearer])]],
        [.never (needs ["bearerFormat"]),
         .properties [("scheme", [.never [.kind .string, .pattern .bearer]])]]]]

/-- Authorization by OAuth 2. -/
def oauth2Scheme : Schema :=
  object ["type", "flows"]
    [("type", oneText ["oauth2"]), ("flows", named "OAuthFlows"), ("description", text)]

/-- A provider of identities. -/
def openIdConnectScheme : Schema :=
  object ["type", "openIdConnectUrl"]
    [("type", oneText ["openIdConnect"]), ("openIdConnectUrl", text), ("description", text)]

/-- The flows of OAuth 2. -/
def oauthFlows : Schema :=
  object []
    [("implicit", named "ImplicitOAuthFlow"), ("password", named "PasswordOAuthFlow"),
     ("clientCredentials", named "ClientCredentialsFlow"),
     ("authorizationCode", named "AuthorizationCodeOAuthFlow")]

/-- The implicit flow. -/
def implicitFlow : Schema :=
  object ["authorizationUrl", "scopes"]
    [("authorizationUrl", text), ("refreshUrl", text), ("scopes", mapOf text)]

/-- The password flow. -/
def passwordFlow : Schema :=
  object ["tokenUrl", "scopes"] [("tokenUrl", text), ("refreshUrl", text), ("scopes", mapOf text)]

/-- The flow of client credentials. -/
def clientCredentialsFlow : Schema :=
  object ["tokenUrl", "scopes"] [("tokenUrl", text), ("refreshUrl", text), ("scopes", mapOf text)]

/-- The flow of authorization codes. -/
def authorizationCodeFlow : Schema :=
  object ["authorizationUrl", "tokenUrl", "scopes"]
    [("authorizationUrl", text), ("tokenUrl", text), ("refreshUrl", text), ("scopes", mapOf text)]

/-- A link from a response to an operation. -/
def link : Schema :=
  object []
      [("operationId", text), ("operationRef", text), ("parameters", mapOf []),
       ("requestBody", []), ("description", text), ("server", named "Server")] ++
    [.never
       [.note "description" (.str "Operation Id and Operation Ref are mutually exclusive"),
        .required ["operationId", "operationRef"]]]

/-- Paths that the API calls back. -/
def callback : Schema :=
  [.kind .object, .others (named "PathItem"), .patterns [(.extension, [])]]

/-- How a part of a body is encoded. -/
def encoding : Schema :=
  object []
    [("contentType", text), ("headers", mapOf (orReference "Header")),
     ("style", oneText ["form", "spaceDelimited", "pipeDelimited", "deepObject"]),
     ("explode", flag), ("allowReserved", flag)]

/-- The schemas of the parts of a document by name. -/
def definitions : List (String × Schema) :=
  [("Reference", referenceObject), ("Info", info), ("Contact", contact), ("License", license),
   ("Server", server), ("ServerVariable", serverVariable), ("Components", components),
   ("Schema", schemaObject), ("Discriminator", discriminator), ("XML", xml),
   ("Response", response), ("MediaType", mediaType), ("Example", exampleObject),
   ("Header", header), ("Paths", paths), ("PathItem", pathItem), ("Operation", operation),
   ("Responses", responses), ("SecurityRequirement", securityRequirement), ("Tag", tag),
   ("ExternalDocumentation", externalDocumentation), ("ExampleXORExamples", singleExample),
   ("SchemaXORContent", schemaOrContent), ("Parameter", parameter),
   ("ParameterLocation", parameterLocation), ("RequestBody", requestBody),
   ("SecurityScheme", securityScheme), ("APIKeySecurityScheme", apiKeyScheme),
   ("HTTPSecurityScheme", httpScheme), ("OAuth2SecurityScheme", oauth2Scheme),
   ("OpenIdConnectSecurityScheme", openIdConnectScheme), ("OAuthFlows", oauthFlows),
   ("ImplicitOAuthFlow", implicitFlow), ("PasswordOAuthFlow", passwordFlow),
   ("ClientCredentialsFlow", clientCredentialsFlow),
   ("AuthorizationCodeOAuthFlow", authorizationCodeFlow), ("Link", link), ("Callback", callback),
   ("Encoding", encoding)]

/-- A document. -/
def document : Schema :=
  object ["openapi", "info", "paths"]
    [("openapi", [.kind .string, .pattern .revision]), ("info", named "Info"),
     ("externalDocs", named "ExternalDocumentation"), ("servers", listOf (named "Server")),
     ("security", listOf (named "SecurityRequirement")),
     ("tags", [.kind .array, .items (named "Tag"), .uniqueItems]), ("paths", named "Paths"),
     ("components", named "Components")]

end ApiTree.OpenApi
