import Scim.Schema.Basic

/-!
# Core schemas

The schemas for users and groups, and the extension of users that describes them as employees.
-/

namespace Scim.Schema

def userUrn : String := "urn:ietf:params:scim:schemas:core:2.0:User"

def groupUrn : String := "urn:ietf:params:scim:schemas:core:2.0:Group"

def enterpriseUserUrn : String := "urn:ietf:params:scim:schemas:extension:enterprise:2.0:User"

def user : Schema where
  id := userUrn
  name := "User"
  description := "User Account"
  attributes :=
    [{ name := "id", caseExact := true, mutability := .readOnly, returned := .always,
       uniqueness := .server },
     { name := "externalId", caseExact := true },
     { name := "meta", type := .complex, mutability := .readOnly,
       subAttributes :=
         [{ name := "resourceType", caseExact := true, mutability := .readOnly },
          { name := "created", type := .dateTime, mutability := .readOnly },
          { name := "lastModified", type := .dateTime, mutability := .readOnly },
          { name := "location", type := .reference, caseExact := true, mutability := .readOnly },
          { name := "version", caseExact := true, mutability := .readOnly }] },
     { name := "userName", required := true, uniqueness := .server },
     { name := "name", type := .complex,
       subAttributes :=
         [{ name := "formatted" },
          { name := "familyName" },
          { name := "givenName" },
          { name := "middleName" },
          { name := "honorificPrefix" },
          { name := "honorificSuffix" }] },
     { name := "displayName" },
     { name := "nickName" },
     { name := "profileUrl", type := .reference },
     { name := "title" },
     { name := "userType" },
     { name := "preferredLanguage" },
     { name := "locale" },
     { name := "timezone" },
     { name := "active", type := .boolean },
     { name := "password", mutability := .writeOnly, returned := .never },
     { name := "emails", type := .complex, multiValued := true,
       subAttributes :=
         [{ name := "value" },
          { name := "display" },
          { name := "type", canonicalValues := ["work", "home", "other"] },
          { name := "primary", type := .boolean }] },
     { name := "phoneNumbers", type := .complex, multiValued := true,
       subAttributes :=
         [{ name := "value" },
          { name := "display" },
          { name := "type", canonicalValues := ["work", "home", "mobile", "fax", "pager", "other"] },
          { name := "primary", type := .boolean }] },
     { name := "ims", type := .complex, multiValued := true,
       subAttributes :=
         [{ name := "value" },
          { name := "display" },
          { name := "type",
            canonicalValues := ["aim", "gtalk", "icq", "xmpp", "msn", "skype", "qq", "yahoo"] },
          { name := "primary", type := .boolean }] },
     { name := "photos", type := .complex, multiValued := true,
       subAttributes :=
         [{ name := "value", type := .reference, caseExact := true },
          { name := "display" },
          { name := "type", canonicalValues := ["photo", "thumbnail"] },
          { name := "primary", type := .boolean }] },
     { name := "addresses", type := .complex, multiValued := true,
       subAttributes :=
         [{ name := "formatted" },
          { name := "streetAddress" },
          { name := "locality" },
          { name := "region" },
          { name := "postalCode" },
          { name := "country" },
          { name := "type", canonicalValues := ["work", "home", "other"] },
          { name := "primary", type := .boolean }] },
     { name := "groups", type := .complex, multiValued := true, mutability := .readOnly,
       subAttributes :=
         [{ name := "value", mutability := .readOnly },
          { name := "$ref", type := .reference, mutability := .readOnly },
          { name := "display", mutability := .readOnly },
          { name := "type", mutability := .readOnly, canonicalValues := ["direct", "indirect"] }] },
     { name := "entitlements", type := .complex, multiValued := true,
       subAttributes :=
         [{ name := "value" },
          { name := "display" },
          { name := "type" },
          { name := "primary", type := .boolean }] },
     { name := "roles", type := .complex, multiValued := true,
       subAttributes :=
         [{ name := "value" },
          { name := "display" },
          { name := "type" },
          { name := "primary", type := .boolean }] },
     { name := "x509Certificates", type := .complex, multiValued := true,
       subAttributes :=
         [{ name := "value", type := .binary, caseExact := true },
          { name := "display" },
          { name := "type" },
          { name := "primary", type := .boolean }] }]

def group : Schema where
  id := groupUrn
  name := "Group"
  description := "Group"
  attributes :=
    [{ name := "id", caseExact := true, mutability := .readOnly, returned := .always,
       uniqueness := .server },
     { name := "externalId", caseExact := true },
     { name := "meta", type := .complex, mutability := .readOnly,
       subAttributes :=
         [{ name := "resourceType", caseExact := true, mutability := .readOnly },
          { name := "created", type := .dateTime, mutability := .readOnly },
          { name := "lastModified", type := .dateTime, mutability := .readOnly },
          { name := "location", type := .reference, caseExact := true, mutability := .readOnly },
          { name := "version", caseExact := true, mutability := .readOnly }] },
     { name := "displayName", required := true },
     { name := "members", type := .complex, multiValued := true,
       subAttributes :=
         [{ name := "value", mutability := .immutable },
          { name := "$ref", type := .reference, mutability := .immutable },
          { name := "display", mutability := .readOnly },
          { name := "type", mutability := .immutable, canonicalValues := ["User", "Group"] }] }]

def enterpriseUser : Schema where
  id := enterpriseUserUrn
  name := "EnterpriseUser"
  description := "Enterprise User"
  attributes :=
    [{ name := "employeeNumber" },
     { name := "costCenter" },
     { name := "organization" },
     { name := "division" },
     { name := "department" },
     { name := "manager", type := .complex,
       subAttributes :=
         [{ name := "value" },
          { name := "$ref", type := .reference },
          { name := "displayName", mutability := .readOnly }] }]

end Scim.Schema
